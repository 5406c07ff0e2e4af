import OpenSecret.Credentials.Facts

/-!
Every handler keeps the invariant, and a handler that answers with an
authenticated user knows which credential facts were checked for that user.
The handlers are proved one by one, against the discipline only.
-/
namespace OpenSecret
open Framing Chronicle Interleaving List

/-- The credential facts a context stands for. -/
structure Matches (S : AppState) (facts : AuthFacts) (who : AuthenticatedUser) : Prop where
  user : facts.userUuid = who.user.uuid
  project : facts.projectId = who.authContext.projectId
  kind : facts.kind = who.authContext.method.credentialKind
  binding : facts.authBinding S.primitives S.enclaveKey = .ok ⟨who.authContext.authBinding⟩

/-- The credential is still the account's: a password until the next one is
    stored, an OAuth subject until the account is reset. -/
def Live (journal : List Event) (facts : AuthFacts) : Prop :=
  match facts.kind with
  | .password => ∃ cause seed, newestStored journal facts.userUuid = some (cause,facts,seed)
  | .oauth => ¬ WasReset journal facts.userUuid

def SeedOpened (S : AppState) (journal : List Event) (who : AuthenticatedUser) (seed : Bytes) :
    Prop :=
  ∃ facts sealed, .wrapped facts seed sealed ∈ journal ∧ Matches S facts who ∧
    (Untampered journal → Live journal facts)

namespace Fact
variable (S : AppState)

/-- After `base`, the stored wraps opened to `seed` for this user. -/
def opened (base : List Event) (who : AuthenticatedUser) (seed : Bytes) : Fact :=
  ⟨fun w => ∃ moment, base <:+ moment ∧ moment <:+ w.journal ∧ SeedOpened S moment who seed,
    fun later ⟨moment,since,sub,h⟩ => ⟨moment,since,sub.trans later.1,h⟩⟩

def authenticated (evidence : AuthFacts → Text → Fact) (who : AuthenticatedUser) : Fact :=
  ⟨fun w => ∃ facts presented, (evidence facts presented).holds w ∧
      .verified facts presented ∈ w.journal ∧ Matches S facts who,
    fun later ⟨facts,presented,shown,logged,agree⟩ =>
      ⟨facts,presented,(evidence facts presented).grows later shown,later.1.mem logged,agree⟩⟩

end Fact

def byPassword (password : Text) (facts : AuthFacts) (presented : Text) : Fact :=
  .always (facts.kind = .password ∧ presented = password)

/-- The facts answer to what was typed: an email up to the case of its letters, or a uuid. -/
def AnswersTo (S : AppState) (email : Option Text) (id : Option Uuid) (facts : AuthFacts) : Prop :=
  match email,id with
  | some email,_ => ∃ stored verifier, S.citextLower stored = S.citextLower email ∧
      facts.credential = .password .email (normalizeEmailLoginIdentifier stored) verifier
  | none,some id => facts.userUuid = id
  | none,none => False

def byLogin (S : AppState) (email : Option Text) (id : Option Uuid) (password : Text)
    (facts : AuthFacts) (presented : Text) : Fact :=
  .always (facts.kind = .password ∧ presented = password ∧ AnswersTo S email id facts)

def byProvider (provider subject : Text) (facts : AuthFacts) (_ : Text) : Fact :=
  .always (facts.credential = .oauth provider subject)

/-- The token was signed after the facts had been checked, and it carries them. -/
def byToken (S : AppState) (token : Text) (facts : AuthFacts) (presented : Text) : Fact :=
  ⟨fun w => ∃ claims older, S.es256kValidate token = some claims ∧
      Event.signed claims :: older <:+ w.journal ∧ .verified facts presented ∈ older ∧
      IssuedUnder S facts claims.custom,
    fun later ⟨claims,older,verified,sub,checked,issued⟩ =>
      ⟨claims,older,verified,sub.trans later.1,checked,issued⟩⟩

/-- A token was accepted: its claims name the user and the context, and the
    context opened the user's wraps. -/
def accepted (S : AppState) (base : List Event) (token : Text) (who : AuthenticatedUser) : Fact :=
  ⟨fun w => ∃ claims seed, S.es256kValidate token = some claims ∧
      S.parseUuid claims.custom.sub = some who.user.uuid ∧
      AuthContext.fromClaims S claims.custom = .ok who.authContext ∧
      (Fact.opened S base who seed).holds w,
    fun later ⟨claims,seed,verified,names,context,opened⟩ =>
      ⟨claims,seed,verified,names,context,(Fact.opened S base who seed).grows later opened⟩⟩

abbrev bearer (authorization : Option Text) :
    Option Text := authorization.bind (·.dropPrefix? "Bearer ")

section
variable {S : AppState} {w : World} {user : User} {kind : CredentialKind} {seed : Bytes}

theorem read_of_mem (inv : Invariant S w) (mem : user ∈ w.db.users) :
    (Fact.read S user).holds w := by
  intro untampered
  have before := inv.consistent untampered
  refine ⟨before.journalled user mem,fun passwordEnc has => ?_⟩
  obtain ⟨seed,_,state⟩ := before.accounts user mem
  simp only [PasswordState, has] at state
  obtain ⟨cause,verifier,_,opens,newest,_,_⟩ := state
  exact ⟨verifier,cause,seed,opens,(newestStored_some newest).1⟩

theorem live_wrap (before : Consistent S w) {user : Uuid} {row : UserSeedWrapping}
    (inRows : row ∈ w.db.wrapsOf user) (rowKind : row.credentialKind = kind.asStr) :
    ∃ facts held, .wrapped facts held row.seedEnc ∈ w.journal ∧ Live w.journal facts := by
  obtain ⟨owner,inUsers,owns⟩ := before.owned row (Database.mem_wrapsOf.mp inRows).1
  obtain rfl : owner.uuid = user := owns.trans (Database.mem_wrapsOf.mp inRows).2
  obtain ⟨seed,rows,state⟩ := before.accounts owner inUsers
  cases kind with
  | password =>
    have inPasswordRows : row ∈ passwordRows (w.db.wrapsOf owner.uuid) :=
      mem_filter.mpr ⟨inRows,by simpa using rowKind⟩
    unfold PasswordState at state
    split at state
    · rw [state.2] at inPasswordRows
      cases inPasswordRows
    · obtain ⟨cause,verifier,only,_,newest,rowsEq,sealed⟩ := state
      rw [rowsEq] at inPasswordRows
      rw [mem_singleton.mp inPasswordRows]
      exact ⟨passwordFacts owner verifier,seed,sealed,cause,seed,newest⟩
  | oauth =>
    obtain ⟨facts,forUser,_,factsKind,sealed⟩ := (rows row inRows).sealed
    have oauth : facts.kind = .oauth :=
      CredentialKind.asStr_injective (factsKind.symm.trans rowKind)
    refine ⟨facts,seed,sealed,?_⟩
    rw [Live, oauth, forUser]
    exact fun wasReset => before.reset owner.uuid wasReset row inRows rowKind

theorem openFirst_ok {binding : AuthBinding}
    {rows : List UserSeedWrapping} (h : openFirst S user kind binding rows = .ok seed) :
    ∃ row ∈ rows, decryptSeedV1 S.primitives S.enclaveKey row.seedEnc user.uuid user.projectId kind
      binding = .ok seed := by
  induction rows with
  | nil => cases h
  | cons row rows ih =>
    simp only [openFirst] at h
    split at h
    · obtain ⟨found,mem,opens⟩ := ih h
      exact ⟨found,mem_cons_of_mem _ mem,opens⟩
    · split at h
      · rename_i opened opens
        cases h
        exact ⟨row,mem_cons_self,opens⟩
      · cases h
      · obtain ⟨found,mem,opens⟩ := ih h
        exact ⟨found,mem_cons_of_mem _ mem,opens⟩

theorem opened_of_decrypt (env : Environment S) (inv : Invariant S w) {context : AuthContext}
    (h : decryptSeedForAuthContext S w.db user context = .ok seed) :
    user.projectId = context.projectId ∧ SeedOpened S w.journal ⟨user,context⟩ seed := by
  unfold decryptSeedForAuthContext at h
  split at h
  · cases h
  · rename_i sameProject
    have project : user.projectId = context.projectId := Classical.not_not.mp sameProject
    refine ⟨project,?_⟩
    obtain ⟨row,mem,opens⟩ := openFirst_ok h
    rw [Database.getUserSeedWrappingsForUserAndKind_eq] at mem
    obtain ⟨inRows,rowKind⟩ := mem_filter.mp mem
    have stored := (Database.mem_wrapsOf.mp inRows).1
    -- a live credential sealed this row, unless somebody tampered; then only the enclave did
    obtain ⟨facts,held,sealed,live⟩ : ∃ facts held, .wrapped facts held row.seedEnc ∈ w.journal ∧
        (Untampered w.journal → Live w.journal facts) := by
      by_cases untampered : Untampered w.journal
      · obtain ⟨facts,held,sealed,live⟩ :=
          live_wrap (inv.consistent untampered) inRows (decide_eq_true_eq.mp rowKind)
        exact ⟨facts,held,sealed,fun _ => live⟩
      · obtain ⟨facts,held,sealed⟩ := inv.genuine row stored _ _ _ _ _ opens
        exact ⟨facts,held,sealed,fun h => absurd h untampered⟩
    obtain ⟨_,_,_,valid⟩ := justified_mem inv.justified sealed
    obtain ⟨forUser,forProject,kind,binding,rfl⟩ := wrapValid_only env valid opens
    exact ⟨facts,row.seedEnc,sealed,⟨forUser,forProject.trans project,kind,binding⟩,live⟩

end

section
variable {S : AppState} {pre : Fact} {db : Database} {uuid : Uuid}
  {user : User} {project : Int32} {ε : Type}
  {base : List Event} {context : AuthContext} {who : AuthenticatedUser}
  {evidence : AuthFacts → Text → Fact} {draws : Draws}
  {email : Option Text} {id : Option Uuid} {creds : LoginCredentials}

theorem getUserByUuid_mem (found : db.getUserByUuid uuid = some user) :
    user ∈ db.users ∧ user.uuid = uuid :=
  ⟨mem_of_find?_eq_some found,by simpa using find?_some found⟩

theorem getUserByEmail_mem {lower : Text → Text} {email : Text}
    (found : db.getUserByEmail lower email project = some user) : user ∈ db.users :=
  mem_of_find?_eq_some found

theorem keeps_findByUuid {β : Type} {e : ε} {f : User → Action ε β} {after : β → Fact}
    (rest : ∀ user, user.uuid = uuid → Keeps S (pre.and (.read S user)) (f user) after) :
    Keeps S pre (query (·.getUserByUuid uuid) >>= fun found => orFail e found >>= f) after := by
  let seen : User → Fact := fun user => (Fact.read S user).and (.always (user.uuid = uuid))
  have sees : ∀ w user, Invariant S w → pre.holds w → w.db.getUserByUuid uuid = some user →
      (seen user).holds w := by
    intro w user inv _ found
    obtain ⟨mem,same⟩ := getUserByUuid_mem found
    exact ⟨read_of_mem inv mem,same⟩
  refine keeps_find sees fun user w holds => ?_
  exact rest user holds.2.2.2 w ⟨holds.1,holds.2.1,holds.2.2.1⟩

theorem keeps_foundByEmail {email : Text} {e : ε} :
    Keeps S pre (query (Database.getUserByEmail S.citextLower · email project) >>=
      fun found => orFail e found) (fun user => pre.and (.read S user)) :=
  keeps_found fun _ _ inv _ found => read_of_mem inv (getUserByEmail_mem found)

theorem contextClaims_issuedUnder {facts : AuthFacts}
    (agree : Matches S facts who) (aud : Text) (duration now : Int) :
    IssuedUnder S facts (contextClaims S who.user who.authContext aud duration now).custom := by
  refine ⟨congrArg Octets.hyphenated agree.user.symm,congrArg some agree.project.symm,?_,
    ⟨who.authContext.authBinding⟩,agree.binding,rfl⟩
  rw [agree.kind, AuthMethod.credentialKind_asStr]
  rfl

theorem signToken_keeps {claims : Claims}
    (justified : ∀ w, pre.holds w → Justifies S w.journal (.signed claims)) :
    Keeps S pre (signToken S claims) (fun _ => pre) := by
  refine keeps_bind (keeps_note trivial (fun w _ => justified w) fun _ _ _ => trivial) fun _ => ?_
  cases S.es256kToken claims with
  | none => exact keeps_fail
  | some token => exact keeps_pure fun _ _ held => held.1

theorem issueToken_keeps {tokenType : TokenType} {now : Int}
    (known : ∀ w, pre.holds w → (Fact.authenticated S evidence who).holds w) :
    Keeps S pre (issueToken S who tokenType now) (fun _ => pre) := by
  refine keeps_checked_bind fun claims made => signToken_keeps fun w held => ?_
  obtain ⟨facts,presented,_,logged,agree⟩ := known w held
  obtain ⟨_,aud,duration,rfl⟩ := newWithAuthContext_ok made
  exact fun _ => ⟨facts,presented,logged,contextClaims_issuedUnder agree aud duration now⟩

/-- The tokens are for the user they were asked for, so what is known of that
    user is known of them. -/
theorem issueTokens_keeps {goal : AuthenticatedUser → Fact}
    (known : ∀ w, pre.holds w → (Fact.authenticated S evidence who).holds w)
    (reached : ∀ w, pre.holds w → (goal who).holds w) :
    Keeps S pre (issueTokens S who draws) (fun issued => goal issued.who) := by
  refine keeps_bind (issueToken_keeps known) fun _ => ?_
  refine keeps_bind (issueToken_keeps known) fun _ => ?_
  exact keeps_pure fun w _ held => reached w held

theorem passwordAuthContextForUser_ok {verifier : Text}
    (h : passwordAuthContextForUser S user verifier = .ok context) :
    Matches S (passwordFacts user verifier) ⟨user,context⟩ := by
  simp only [passwordAuthContextForUser, Outcome.bind_eq_ok] at h
  obtain ⟨binding,bound,same⟩ := h
  cases same
  exact ⟨rfl,rfl,rfl,passwordAuthBindingForUser_ok.mp bound⟩

theorem oauthAuthContextForUser_ok {provider subject : Text}
    (h : oauthAuthContextForUser S user provider subject = .ok context) :
    Matches S (oauthFacts user provider subject) ⟨user,context⟩ := by
  simp only [oauthAuthContextForUser, Outcome.bind_eq_ok] at h
  obtain ⟨binding,bound,same⟩ := h
  cases same
  exact ⟨rfl,rfl,rfl,oauthAuthBindingForUser_ok.mp bound⟩

theorem findLoginUser_keeps :
    Keeps S pre (findLoginUser S email id project) (fun user => pre.and ((Fact.read S user).and
      (.always (∀ verifier, AnswersTo S email id (passwordFacts user verifier))))) := by
  unfold findLoginUser
  split
  · refine keeps_found fun w user inv _ found =>
      ⟨read_of_mem inv (getUserByEmail_mem found),fun verifier => ?_⟩
    have fits := find?_some found
    have named := (Bool.and_eq_true_iff.mp fits).1
    unfold Database.hasEmail at named
    cases has : user.email with
    | none => simp [has] at named
    | some stored =>
      refine ⟨stored,verifier,by simpa [has] using named,?_⟩
      simp only [passwordFacts, passwordLoginIdentifierForUser, has]
  · refine keeps_findByUuid fun user same => keeps_require_bind fun _ => ?_
    exact keeps_pure fun _ _ held => ⟨held.1,held.2,fun _ => same⟩
  · exact keeps_fail

theorem checkLoginUser_keeps :
    Keeps S pre (checkLoginUser S creds project) (fun user => pre.and (.read S user)) := by
  unfold checkLoginUser
  split
  · exact keeps_foundByEmail
  · refine keeps_findByUuid fun user _ => keeps_require_bind fun _ => keeps_require_bind fun _ => ?_
    exact keeps_pure fun _ _ held => held
  · exact keeps_fail

theorem checkEmailFree_keeps :
    Keeps S pre (checkEmailFree S email project) (fun _ => pre) := by
  unfold checkEmailFree
  split
  · refine keeps_query_bind fun existing => ?_
    unfold require
    split
    · exact keeps_pure fun _ _ held => held
    · exact keeps_fail
  · exact keeps_pure fun _ _ held => held

theorem createPasswordResetRequest_keeps {email hashedSecret : Text} :
    Keeps S pre (createPasswordResetRequest S email hashedSecret project draws) (fun _ => pre) := by
  refine keeps_query_bind fun found => ?_
  cases found with
  | none => exact keeps_pure fun _ _ held => held
  | some user =>
    simp only
    split
    · refine keeps_settle_bind fun code _ => ?_
      exact keeps_write (createPasswordResetRequest_harmless _ _ _ _)
    · exact keeps_pure fun _ _ held => held

theorem passwordResetRequest_keeps {email hashedSecret : Text} {clientId : Uuid} :
    Keeps S pre (passwordResetRequest S email hashedSecret clientId draws)
      (fun _ => .always True) := by
  refine keeps_some fun project => ?_
  refine keeps_query_bind fun found => ?_
  cases found with
  | none => exact keeps_pure fun _ _ _ => trivial
  | some user =>
    simp only
    split
    · exact keeps_pure fun _ _ _ => trivial
    · exact keeps_ignoreError createPasswordResetRequest_keeps

theorem oauthCallbackResponse_keeps :
    Keeps S (.authenticated S evidence who) (oauthCallbackResponse S who draws)
      (fun issued => .authenticated S evidence issued.who) := by
  have tokens : Keeps S (.authenticated S evidence who) (issueTokens S who draws)
      (fun issued => .authenticated S evidence issued.who) :=
    issueTokens_keeps (fun _ held => held) fun _ held => held
  refine keeps_bind (keeps_onError tokens) fun issued => ?_
  refine (discipline S).ensures_settle fun w answered _ held same => ?_
  split at same
  · cases same
    exact held
  · cases same

theorem signToken_other {claims : Claims} (format : claims.custom.tokenFormat = none) :
    Keeps S pre (signToken S claims) (fun _ => pre) := by
  refine signToken_keeps fun w _ v2 => ?_
  rw [format] at v2
  cases v2

theorem issuePlatformToken_keeps {platformUser : Uuid} {tokenType : TokenType} :
    Keeps S pre (issuePlatformToken S platformUser tokenType draws) (fun _ => .always True) := by
  refine keeps_checked_bind fun claims made => ?_
  refine keeps_bind (signToken_other (newForPlatformUser_format made)) fun _ => ?_
  exact keeps_pure fun _ _ _ => trivial

variable (env : Environment S)
include env

theorem readSeed_keeps (since : ∀ w, pre.holds w → base <:+ w.journal) :
    Keeps S pre (readSeed S user context)
      (fun seed => pre.and (.opened S base ⟨user,context⟩ seed)) := by
  let seen : Outcome Error Bytes → Fact :=
    fun r => .allOf (r = .ok ·) (.opened S base ⟨user,context⟩)
  have sees : ∀ w, Invariant S w → pre.holds w →
      (seen (decryptSeedForAuthContext S w.db user context)).holds w := by
    intro w inv held seed ok
    exact ⟨w.journal,since w held,suffix_refl _,(opened_of_decrypt env inv ok).2⟩
  refine keeps_bind (keeps_query sees) fun r => ?_
  refine (discipline S).ensures_settle fun w seed _ held ok => ?_
  exact ⟨held.1,held.2 seed ok⟩

theorem verifySeedWrapForAuthContext_keeps (since : ∀ w, pre.holds w → base <:+ w.journal) :
    Keeps S pre (verifySeedWrapForAuthContext S user context)
      (fun _ => pre.and (.anyOf (.opened S base ⟨user,context⟩))) :=
  keeps_bind (readSeed_keeps env since) fun seed => keeps_pure fun _ _ held => ⟨held.1,seed,held.2⟩

theorem authenticateUser_keeps {password : Text} :
    Keeps S pre (authenticateUser S email id password project)
      (fun result =>
        pre.and (.allOf (result = some ·) (.authenticated S (byLogin S email id password)))) := by
  refine keeps_bind findLoginUser_keeps fun user => ?_
  cases has : user.passwordEnc with
  | none => exact keeps_pure fun _ _ held => ⟨held.1,fun _ same => by cases same⟩
  | some passwordEnc =>
    refine keeps_settle_bind fun verifier opens => ?_
    split
    · rename_i correct
      refine keeps_settle_bind fun context made => ?_
      refine keeps_bind (keeps_note trivial (fun _ _ _ => correct) ?_) fun _ => ?_
      · intro w held untampered _
        obtain ⟨_,_,_,opens',stored⟩ := (held.2.1 untampered).2 passwordEnc has
        obtain rfl := Except.ok.inj (opens.symm.trans opens')
        exact ⟨_,_,stored⟩
      · refine keeps_bind (verifySeedWrapForAuthContext_keeps env (fun _ _ => nil_suffix))
          fun _ => ?_
        refine keeps_pure fun w _ held => ⟨held.1.1.1,fun who same => ?_⟩
        cases same
        exact ⟨passwordFacts user verifier,password,⟨rfl,rfl,held.1.1.2.2 verifier⟩,held.1.2,
          passwordAuthContextForUser_ok made⟩
    · exact keeps_pure fun _ _ held => ⟨held.1,fun _ same => by cases same⟩

theorem loginInternal_keeps :
    Keeps S pre (loginInternal S creds draws)
      (fun issued => .authenticated S (byLogin S creds.email creds.id creds.password)
        issued.who) := by
  refine keeps_some fun project => ?_
  refine keeps_bind checkLoginUser_keeps fun user => keeps_require_bind fun _ => ?_
  refine keeps_bind (keeps_onError (authenticateUser_keeps env)) fun authenticated => ?_
  refine keeps_orFail_bind fun who same => ?_
  exact issueTokens_keeps (fun w held => held.2 who same) fun w held => held.2 who same

theorem registerUser_keeps {creds : RegisterCredentials} :
    Keeps S pre (registerUser S creds draws) (fun _ => pre.and (.always True)) := by
  refine keeps_some fun project => ?_
  refine keeps_bind checkEmailFree_keeps fun _ => keeps_settle_bind ?_
  rintro ⟨verifier,encrypted⟩ made
  refine keeps_attempt fun w user w' inv held ran => ?_
  obtain ⟨_,opens⟩ := encryptUserPasswordVerifier_ok env made
  obtain ⟨inv',later⟩ := createUserWithPasswordSeedWrap_keeps inv rfl opens ran
  exact ⟨inv',later,trivial⟩

theorem register_keeps {creds : RegisterCredentials} :
    Keeps S pre (register S creds draws)
      (fun issued => .authenticated S (byPassword creds.password) issued.who) := by
  refine keeps_bind (keeps_onError (registerUser_keeps env)) fun _ =>
    keeps_weaken (fun _ _ _ known => ?_) (loginInternal_keeps env)
  obtain ⟨facts,presented,shown,checked⟩ := known
  exact ⟨facts,presented,⟨shown.1,shown.2.1⟩,checked⟩

section
variable {token : Text}

theorem authenticated_of_token {w : World} (inv : Invariant S w) {claims : Claims}
    (verified : S.es256kValidate token = some claims) (signed : .signed claims ∈ w.journal)
    {user : User} {context : AuthContext} (names : S.parseUuid claims.custom.sub = some user.uuid)
    (parsed : AuthContext.fromClaims S claims.custom = .ok context) :
    (Fact.authenticated S (byToken S token) ⟨user,context⟩).holds w := by
  obtain ⟨newer,older,split,justified⟩ := justified_mem inv.justified signed
  obtain ⟨format,_,method,project,decoded⟩ := AuthContext.fromClaims_ok parsed
  obtain ⟨facts,presented,checked,issued⟩ := justified format
  have sub : Event.signed claims :: older <:+ w.journal := ⟨newer,split.symm⟩
  refine ⟨facts,presented,⟨claims,older,verified,sub,checked,issued⟩,
    sub.mem (mem_cons_of_mem _ checked),?_⟩
  obtain ⟨forUser,forProject,forMethod,binding,bound,forBinding⟩ := issued
  refine ⟨?_,Option.some.inj (forProject.symm.trans project),?_,?_⟩
  · rw [forUser, env.parseUuid_hyphenated] at names
    exact Option.some.inj names
  · refine CredentialKind.asStr_injective ?_
    rw [AuthMethod.credentialKind_asStr]
    exact Option.some.inj (forMethod.symm.trans method)
  · rw [forBinding, Option.bind_some, env.base64Decode_base64Encode] at decoded
    have same : binding.bytes = context.authBinding :=
      Octets.bytes_injective (Option.some.inj decoded)
    rw [bound, ← same]

theorem refreshToken_keeps {draws : Draws} (since : ∀ w, pre.holds w → base <:+ w.journal)
    (unforged : ∀ w, pre.holds w → (Fact.unforged S (some token)).holds w) :
    Keeps S pre (refreshToken S token draws) (fun issued =>
      (Fact.authenticated S (byToken S token) issued.who).and
        (accepted S base token issued.who)) := by
  refine keeps_checked_bind fun custom valid => keeps_orFail_bind fun userId names => ?_
  refine keeps_findByUuid fun user same => keeps_checked_bind fun context parsed => ?_
  obtain ⟨claims,verified,rfl⟩ := validateToken_ok valid
  rw [← same] at names
  refine keeps_bind (keeps_onError (verifySeedWrapForAuthContext_keeps env
    (fun w held => since w held.1))) fun _ => ?_
  let known : AuthenticatedUser → Fact := fun who =>
    (Fact.authenticated S (byToken S token) who).and (accepted S base token who)
  have enough : Keeps S (known ⟨user,context⟩) (issueTokens S ⟨user,context⟩ draws)
      (fun issued => known issued.who) :=
    issueTokens_keeps (fun _ held => held.1) fun _ held => held
  refine keeps_strengthen (fun w inv held => ?_) enough
  have signed := unforged w held.1.1 token claims rfl verified
  obtain ⟨seed,opened⟩ := held.2
  exact ⟨authenticated_of_token env inv verified signed names parsed,
    claims,seed,verified,names,parsed,opened⟩

end

section
variable {newPassword email code secret : Text} {clientId : Uuid}

/-- The row that is swapped is the one the seed was read for: its account and the
    sealing of that seed are still in the journal. -/
theorem updateUserPasswordAndSeedWrap_keeps (row : ∀ w, pre.holds w → (Fact.read S user).holds w) :
    Keeps S pre (updateUserPasswordAndSeedWrap S user context newPassword draws)
      (fun newContext => .authenticated S (byPassword newPassword) ⟨user,newContext⟩) := by
  refine keeps_orFail_bind fun expected _ => ?_
  refine keeps_bind (readSeed_keeps env fun _ _ => nil_suffix) fun seed => ?_
  refine keeps_settle_bind ?_
  rintro ⟨verifier,encrypted⟩ made
  obtain ⟨hash,opens⟩ := encryptUserPasswordVerifier_ok env made
  refine keeps_settle_bind fun new wrapped => keeps_settle_bind fun newContext bound => ?_
  let facts := passwordFacts user verifier
  let stored : Unit → Fact := fun _ => .logged (.stored .passwordChange facts seed)
  have commit : Keeps S (pre.and (.opened S [] ⟨user,context⟩ seed))
      (attempt (commitPasswordChange user expected encrypted new verifier seed))
      (fun u => (pre.and (.opened S [] ⟨user,context⟩ seed)).and (stored u)) := by
    refine keeps_attempt fun w _ w' inv held ran => ?_
    refine commitPasswordChange_keeps inv opens (newPasswordSeedWrappingForUser_ok wrapped) ?_ ran
    intro untampered
    obtain ⟨moment,_,sub,sealedFor,sealed,mem,agree,_⟩ := held.2
    exact ⟨(row w held.1 untampered).1,sealedFor,sealed,sub.mem mem,agree.user⟩
  refine keeps_bind commit fun _ => keeps_bind (keeps_note trivial ?_ ?_) fun _ => ?_
  · intro _ _ _
    show S.verifyPassword newPassword verifier = true
    rw [hash]
    exact env.verifyPassword_generateHash newPassword draws.salt
  · exact fun _ held _ _ => ⟨_,_,held.2⟩
  · refine keeps_bind (verifySeedWrapForAuthContext_keeps env (fun _ _ => nil_suffix)) fun _ => ?_
    exact keeps_pure fun _ _ held =>
      ⟨facts,newPassword,⟨rfl,rfl⟩,held.1.2,passwordAuthContextForUser_ok bound⟩

theorem confirmPasswordReset_keeps :
    Keeps S pre (confirmPasswordReset S email code secret newPassword project draws)
      (fun _ => .always True) := by
  have sees : ∀ w user, Invariant S w → pre.holds w →
      w.db.getUserByEmail S.citextLower email project = some user → (Fact.read S user).holds w :=
    fun _ _ inv _ found => read_of_mem inv (getUserByEmail_mem found)
  refine keeps_find sees fun user => keeps_require_bind fun _ => keeps_settle_bind fun mac _ => ?_
  refine keeps_some fun request => ?_
  refine keeps_require_bind fun _ => keeps_require_bind fun _ => keeps_settle_bind ?_
  rintro ⟨verifier,encrypted⟩ made
  obtain ⟨_,opens⟩ := encryptUserPasswordVerifier_ok env made
  refine keeps_settle_bind fun new wrapped => keeps_settle_bind fun _ _ => ?_
  have commit : Keeps S (pre.and (.read S user))
      (attempt (commitDestructiveReset user request (draws.clock 1) encrypted new verifier
        draws.seedWords)) (fun _ => (pre.and (.read S user)).and (.always True)) := by
    refine keeps_attempt fun w _ w' inv held ran => ?_
    obtain ⟨inv',later⟩ := commitDestructiveReset_keeps inv opens
      (newPasswordSeedWrappingForUser_ok wrapped) (fun untampered => (held.2 untampered).1) ran
    exact ⟨inv',later,trivial⟩
  refine keeps_weaken ?_ commit
  exact fun _ _ _ _ => trivial

theorem passwordResetConfirm_keeps :
    Keeps S pre (passwordResetConfirm S email code secret newPassword clientId draws)
      (fun _ => .always True) := by
  refine keeps_some fun project => ?_
  refine keeps_some fun user => keeps_require_bind fun _ => ?_
  exact keeps_onError (confirmPasswordReset_keeps env)

end

section
variable {assertion : ProviderAssertion} {clientId : Uuid}

theorem authenticatedOauthUser_keeps {user : User} {provider subject : Text} :
    Keeps S pre (authenticatedOauthUser S user provider subject)
      (fun who => .authenticated S (byProvider provider subject) who) := by
  refine keeps_bind (keeps_onError keeps_settle) fun context => keeps_given fun made => ?_
  refine keeps_bind (keeps_note trivial (fun _ _ _ => rfl) ?_) fun _ => ?_
  · intro _ _ _ password
    cases password
  · refine keeps_bind (keeps_onError (verifySeedWrapForAuthContext_keeps env
      (fun _ _ => nil_suffix))) fun _ => ?_
    exact keeps_pure fun _ _ held =>
      ⟨oauthFacts user provider subject,subject,rfl,held.1.2,oauthAuthContextForUser_ok made⟩

theorem signInWithConnection_keeps {connection : UserOAuthConnection} :
    Keeps S pre (signInWithConnection S connection assertion project draws)
      (.authenticated S (byProvider assertion.providerName assertion.providerUserId)) := by
  refine keeps_some fun user => keeps_require_bind fun _ => ?_
  have update : Keeps S pre (updateProviderConnection S connection assertion.accessToken
      (draws.nonce 0)) (fun _ => pre) :=
    keeps_settle_bind fun _ _ => keeps_write (updateUserOauthConnection_harmless _)
  exact keeps_bind update fun _ => authenticatedOauthUser_keeps env

theorem createOauthUser_keeps {provider : OAuthProvider} {email : Text}
    (named : provider.name = assertion.providerName)
    (listed : ∀ w, pre.holds w → (Fact.listed provider).holds w) :
    Keeps S pre (createOauthUser S provider assertion email project draws)
      (.authenticated S (byProvider assertion.providerName assertion.providerUserId)) := by
  refine keeps_settle_bind fun accessTokenEnc _ => ?_
  have create : Keeps S pre (attempt (createUserWithOauthSeedWrap S ⟨some email,none,project⟩
      draws.uuid provider assertion.providerName assertion.providerUserId accessTokenEnc
      draws.seedWords (draws.nonce 1))) (fun _ => pre.and (.always True)) := by
    refine keeps_attempt fun w user w' inv held ran => ?_
    obtain ⟨inv',later⟩ := createUserWithOauthSeedWrap_keeps inv rfl named (listed w held) ran
    exact ⟨inv',later,trivial⟩
  exact keeps_bind (keeps_onError create) fun user => authenticatedOauthUser_keeps env

theorem findOrCreateUserFromOauth_keeps :
    Keeps S pre (findOrCreateUserFromOauth S assertion project draws)
      (.authenticated S (byProvider assertion.providerName assertion.providerUserId)) := by
  let seen : OAuthProvider → Fact := fun provider =>
    (Fact.listed provider).and (.always (provider.name = assertion.providerName))
  have sees : ∀ w provider, Invariant S w → pre.holds w →
      w.db.getOauthProviderByName assertion.providerName = some provider →
      (seen provider).holds w := by
    intro w provider _ _ found
    have named : provider.name = assertion.providerName := by simpa using find?_some found
    exact ⟨fun _ => mem_of_find?_eq_some found,named⟩
  refine keeps_find sees fun provider => keeps_query_bind fun found => ?_
  refine keeps_checked_bind fun connection? _ => ?_
  cases connection? with
  | some connection => exact signInWithConnection_keeps env
  | none =>
    refine keeps_orFail_bind fun email _ => keeps_query_bind fun existing => ?_
    refine keeps_require_bind fun _ w holds => ?_
    have listed : ∀ w, (pre.and (seen provider)).holds w → (Fact.listed provider).holds w :=
      fun _ held => held.2.1
    exact createOauthUser_keeps env holds.2.2.2 listed w holds

theorem oauthCallback_keeps :
    Keeps S pre (oauthCallback S assertion clientId draws) (fun issued =>
      .authenticated S (byProvider assertion.providerName assertion.providerUserId)
        issued.who) := by
  refine keeps_some fun project => ?_
  exact keeps_bind (findOrCreateUserFromOauth_keeps env) fun _ => oauthCallbackResponse_keeps

theorem handleAppleNativeSignin_keeps {sub : Text}
    {tokenEmail requestEmail userIdentifier : Option Text} :
    Keeps S pre
      (handleAppleNativeSignin S sub tokenEmail requestEmail userIdentifier clientId draws)
      (fun issued => .authenticated S (byProvider "apple" sub) issued.who) := by
  refine keeps_some fun project => ?_
  refine keeps_require_bind fun _ => ?_
  refine keeps_some fun provider => ?_
  refine keeps_query_bind fun found => keeps_checked_bind fun connection? _ => ?_
  cases connection? with
  | some connection =>
    exact keeps_bind (signInWithConnection_keeps env) fun _ => oauthCallbackResponse_keeps
  | none =>
    refine keeps_orFail_bind fun email _ => ?_
    exact keeps_bind (findOrCreateUserFromOauth_keeps env) fun _ => oauthCallbackResponse_keeps

end

section
variable {authorization audience : Option Text} {currentPassword newPassword : Text} {now : Int}
  (unforged : ∀ w, pre.holds w → (Fact.unforged S (bearer authorization)).holds w)
include unforged

theorem validateJwt_keeps (since : ∀ w, pre.holds w → base <:+ w.journal) :
    Keeps S pre (validateJwt S authorization now) (fun who => (pre.and (.read S who.user)).and
      (.anyOf fun token => (Fact.always (bearer authorization = some token)).and
        ((Fact.authenticated S (byToken S token) who).and (accepted S base token who)))) := by
  refine keeps_orFail_bind fun token given => keeps_checked_bind fun custom valid => ?_
  refine keeps_checked_bind fun context parsed => keeps_orFail_bind fun userId names => ?_
  refine keeps_findByUuid fun user same => keeps_require_bind fun _ => ?_
  obtain ⟨claims,verified,rfl⟩ := validateToken_ok valid
  rw [← same] at names
  refine keeps_bind (keeps_onError (verifySeedWrapForAuthContext_keeps env
    (fun w held => since w held.1))) fun _ => ?_
  refine keeps_pure fun w inv held => ⟨held.1,token,given,?_,?_⟩
  · have signed := unforged w held.1.1 token claims given verified
    exact authenticated_of_token env inv verified signed names parsed
  · obtain ⟨seed,opened⟩ := held.2
    exact ⟨claims,seed,verified,names,parsed,opened⟩

theorem changePassword_keeps :
    Keeps S pre (changePassword S authorization currentPassword newPassword draws)
      (fun issued => .authenticated S (byPassword newPassword) issued.who) := by
  refine keeps_bind (validateJwt_keeps env unforged fun _ _ => nil_suffix) fun who => ?_
  refine keeps_require_bind fun _ => ?_
  refine keeps_bind (keeps_onError (authenticateUser_keeps env)) fun authenticated => ?_
  refine keeps_orFail_bind fun current _ => keeps_require_bind fun _ => ?_
  refine keeps_bind (keeps_onError (updateUserPasswordAndSeedWrap_keeps env
    fun w held => held.1.1.2)) fun newContext => ?_
  exact issueTokens_keeps (fun _ held => held) fun _ held => held

theorem generateThirdPartyToken_keeps :
    Keeps S pre (generateThirdPartyToken S authorization audience draws)
      (fun _ => .always True) := by
  refine keeps_bind (validateJwt_keeps env unforged fun _ _ => nil_suffix) fun who => ?_
  refine keeps_require_bind fun _ => ?_
  refine keeps_some fun project => ?_
  refine keeps_checked_bind fun claims made => ?_
  refine keeps_bind (signToken_other (newThirdParty_format made)) fun _ => ?_
  exact keeps_pure fun _ _ _ => trivial

end

end

section
variable (S : AppState)

def Request.token? : Request → Option Text
  | .refresh token _ => some token
  | .authorize authorization _ => authorization.bind (·.dropPrefix? "Bearer ")
  | .changePassword authorization _ _ _ => authorization.bind (·.dropPrefix? "Bearer ")
  | .thirdPartyToken authorization _ _ => authorization.bind (·.dropPrefix? "Bearer ")
  | _ => none

def evidence : Request → AuthFacts → Text → Fact
  | .register creds _ => byPassword creds.password
  | .login creds _ => byLogin S creds.email creds.id creds.password
  | .changePassword _ _ newPassword _ => byPassword newPassword
  | .oauthCallback assertion _ _ => byProvider assertion.providerName assertion.providerUserId
  | .appleNativeSignin sub _ _ _ _ _ => byProvider "apple" sub
  | request => fun facts presented =>
    ⟨fun w => ∃ token, request.token? = some token ∧ (byToken S token facts presented).holds w,
      fun later ⟨token,given,shown⟩ =>
      ⟨token,given,(byToken S token facts presented).grows later shown⟩⟩

def Request.byTokenOnly : Request → Bool
  | .refresh _ _ => true
  | .authorize _ _ => true
  | _ => false

/-- What holds once a request is answered; `base` is the journal it started with. -/
def answered (base : List Event) (request : Request) (reply : Reply) : Fact :=
  ⟨fun w => (∀ who, reply.who = some who →
    (Fact.authenticated S (evidence S request) who).holds w) ∧
      (request.byTokenOnly = true → ∃ who token, reply.who = some who ∧
        request.token? = some token ∧ (accepted S base token who).holds w),
    by
      rintro s t later ⟨known,opened⟩
      refine ⟨fun who same => (Fact.authenticated S _ who).grows later (known who same),
        fun only => ?_⟩
      obtain ⟨who,token,same,given,wasAccepted⟩ := opened only
      exact ⟨who,token,same,given,(accepted S base token who).grows later wasAccepted⟩⟩

variable {S}

variable {base : List Event} {request : Request} {reply : Reply} {w : World}

theorem answered_more (more : request.byTokenOnly = false) (known : ∀ who, reply.who = some who →
      (Fact.authenticated S (evidence S request) who).holds w) :
    (answered S base request reply).holds w := by
  refine ⟨known,fun only => ?_⟩
  rw [more] at only
  cases only

theorem keeps_tokens {pre : Fact} {x : Action ApiError IssuedTokens}
    (more : request.byTokenOnly = false)
    (kept : Keeps S pre x fun issued => .authenticated S (evidence S request) issued.who) :
    Keeps S pre (Reply.tokens <$> x) (answered S base request) := by
  refine keeps_map
    (keeps_weaken (fun issued w _ known => answered_more more fun who same => ?_) kept)
  cases same
  exact known

theorem keeps_finished {α : Type} {pre : Fact} {known : α → Fact} {x : Action ApiError α}
    (more : request.byTokenOnly = false) (kept : Keeps S pre x known) :
    Keeps S pre ((fun _ => Reply.finished) <$> x) (answered S base request) :=
  keeps_map (keeps_weaken (fun _ _ _ _ => answered_more more nofun) kept)

theorem answered_accepted {who : AuthenticatedUser} (same : reply.who = some who) {token : Text}
    (given : request.token? = some token)
    (known : (Fact.authenticated S (evidence S request) who).holds w)
    (wasAccepted : (accepted S base token who).holds w) :
    (answered S base request reply).holds w := by
  refine ⟨fun other also => ?_,fun _ => ⟨who,token,same,given,wasAccepted⟩⟩
  rw [same] at also
  cases also
  exact known

theorem handle_keeps (env : Environment S) (base : List Event) (request : Request) :
    Keeps S ((Fact.after base).and (.unforged S request.token?)) (handle S request)
      (answered S base request) := by
  cases request with
  | register creds draws => exact keeps_tokens rfl (register_keeps env)
  | login creds draws => exact keeps_tokens rfl (loginInternal_keeps env)
  | refresh token draws =>
    refine keeps_map (keeps_weaken ?_ (refreshToken_keeps env (fun _ held => held.1)
      fun _ held => held.2))
    rintro issued w _ ⟨⟨facts,presented,shown,logged,agree⟩,wasAccepted⟩
    exact answered_accepted rfl rfl ⟨facts,presented,⟨token,rfl,shown⟩,logged,agree⟩ wasAccepted
  | authorize authorization draws =>
    refine keeps_map (keeps_weaken ?_ (validateJwt_keeps env (fun _ held => held.2)
      fun _ held => held.1))
    rintro who w _ ⟨_,token,given,⟨facts,presented,shown,logged,agree⟩,wasAccepted⟩
    have here : (Request.authorize authorization draws).token? = some token := given
    exact answered_accepted rfl here ⟨facts,presented,⟨token,given,shown⟩,logged,agree⟩ wasAccepted
  | changePassword authorization currentPassword newPassword draws =>
    exact keeps_tokens rfl (changePassword_keeps env fun _ held => held.2)
  | requestReset email hashedSecret clientId draws =>
    exact keeps_finished rfl passwordResetRequest_keeps
  | confirmReset email alphanumericCode plaintextSecret newPassword clientId draws =>
    exact keeps_finished rfl (passwordResetConfirm_keeps env)
  | oauthCallback assertion clientId draws =>
    exact keeps_tokens rfl (oauthCallback_keeps env)
  | appleNativeSignin sub tokenEmail requestEmail userIdentifier clientId draws =>
    exact keeps_tokens rfl (handleAppleNativeSignin_keeps env)
  | thirdPartyToken authorization audience draws =>
    exact keeps_finished rfl (generateThirdPartyToken_keeps env fun _ held => held.2)
  | platformToken platformUser tokenType draws =>
    exact keeps_finished rfl issuePlatformToken_keeps

end

end OpenSecret

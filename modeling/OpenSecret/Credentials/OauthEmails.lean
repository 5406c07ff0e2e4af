import OpenSecret.Credentials.Guarantees
import OpenSecret.Credentials.Steps

/-!
Whose word the email of an OAuth account is taken on. The creation transaction
records the email as verified whatever flow it comes from. Google's answer and
the identity token of Apple's web flow are checked for a verified email before
they get there; the native flow checks neither the flag nor the source.
-/
namespace OpenSecret
open Framing Interleaving

structure GoogleUser where
  sub : Text
  email : Text
  emailVerified : Bool

structure AppleIdTokenClaims where
  sub : Text
  email : Option Text
  emailVerified : Option Bool

/-- What ends a flow before it has an answer, such as a state that does not
    match or a refused code, is an error in place of the answer. -/
inductive SignIn where
  | google (answer : Except ApiError (GoogleUser × Text)) (clientId : Uuid) (draws : Draws)
  | appleWeb (answer : Except ApiError (AppleIdTokenClaims × Option Text)) (clientId : Uuid)
      (draws : Draws)
  | appleNative (token : Except ApiError AppleIdTokenClaims) (email userIdentifier : Option Text)
      (clientId : Uuid) (draws : Draws)

def fetchGoogleUser (user : GoogleUser) : Except ApiError GoogleUser :=
  if user.email.isEmpty || !user.emailVerified then .error .badRequest else .ok user

def fetchAppleUser (claims : AppleIdTokenClaims) : Except ApiError AppleIdTokenClaims :=
  if claims.email.any (fun email => !email.isEmpty) && claims.emailVerified.getD false then
    .ok claims
  else
    .error .noEmailFound

section
variable (S : AppState)

def googleCallback (answer : Except ApiError (GoogleUser × Text))
    (clientId : Uuid) (draws : Draws) :
    Action ApiError IssuedTokens := do
  let project ← orFail .badRequest (← query (·.getOrgProjectByClientId clientId))
  let (answered,accessToken) ← checked answer
  let user ← checked (fetchGoogleUser answered)
  let who ← findOrCreateUserFromOauth S ⟨"google",user.sub,some user.email,accessToken⟩
    project.id draws
  oauthCallbackResponse S who draws

/-- The refresh token is stored if there is one. -/
def appleCallback (answer : Except ApiError (AppleIdTokenClaims × Option Text)) (clientId : Uuid)
    (draws : Draws) : Action ApiError IssuedTokens := do
  let project ← orFail .badRequest (← query (·.getOrgProjectByClientId clientId))
  let (claims,refreshToken) ← checked answer
  let user ← checked (fetchAppleUser claims)
  let who ← findOrCreateUserFromOauth S ⟨"apple",user.sub,user.email,refreshToken.getD []⟩
    project.id draws
  oauthCallbackResponse S who draws

/-- The token is validated after the project has been found. -/
def appleNative (token : Except ApiError AppleIdTokenClaims) (email userIdentifier : Option Text)
    (clientId : Uuid) (draws : Draws) : Action ApiError IssuedTokens :=
  match token with
  | .ok claims =>
    handleAppleNativeSignin S claims.sub claims.email email userIdentifier clientId draws
  | .error e => do
    let _ ← orFail .badRequest (← query (·.getOrgProjectByClientId clientId))
    fail e

def signIn : SignIn → Action ApiError IssuedTokens
  | .google answer clientId draws => googleCallback S answer clientId draws
  | .appleWeb answer clientId draws => appleCallback S answer clientId draws
  | .appleNative token email userIdentifier clientId draws =>
    appleNative S token email userIdentifier clientId draws

end

/-- The provider itself carries this email and says that it is verified. -/
def SignIn.Vouched : SignIn → Text → Prop
  | .google answer _ _,email => ∃ user accessToken, answer = .ok (user,accessToken) ∧
    user.email = email ∧ user.emailVerified = true
  | .appleWeb answer _ _,email => ∃ claims refreshToken, answer = .ok (claims,refreshToken) ∧
    claims.email = some email ∧ claims.emailVerified = some true
  | .appleNative token _ _ _ _,email => ∃ claims, token = .ok claims ∧
    claims.email = some email ∧ claims.emailVerified = some true

def AddsVouched (vouched : Text → Prop) (w w' : World) : Prop :=
  w'.db.users = w.db.users ∨ ∃ user email, w'.db.users = w.db.users ++ [user] ∧
    user.email = some email ∧ vouched email

instance (vouched : Text → Prop) : Lenient (AddsVouched vouched) := ⟨fun users _ _ => .inl users⟩

/-- An account with this email and this subject can be created: its seed can be
    wrapped and the wrap opens again. -/
def CanCreate (S : AppState) (provider sub email : Text) (projectId : Int32) (draws : Draws) :
    Prop :=
  (Text.trim email).isEmpty = false ∧ ∃ new, newOauthSeedWrappingForUser S
    ⟨draws.uuid,some email,none,projectId⟩ provider sub draws.seedWords (draws.nonce 1) = .ok new

/-- In the native flow, the email an account would be created with is the one
    of the token, and the token says that it is verified. -/
def SignIn.Trustworthy (S : AppState) : SignIn → Prop
  | .appleNative (.ok claims) requestEmail userIdentifier _ draws =>
    ∀ email projectId, userIdentifier.all (· = claims.sub) = true →
      claims.email.or requestEmail = some email →
      CanCreate S "apple" claims.sub email projectId draws →
      claims.email = some email ∧ claims.emailVerified = some true
  | _ => True

section
variable {S : AppState} {vouched : Text → Prop}

def noAccounts (project : OrgProject) (provider : OAuthProvider) : World :=
  ⟨⟨[],[],[],[],[project],[provider],0,0⟩,[]⟩

/-- Creating an account is within bounds if and only if its email is vouched
    for; the tables decide nothing, since some have no clash. -/
theorem within_createUser {email providerName sub : Text} {projectId : Int32} {uuid : Uuid}
    {provider : OAuthProvider} {accessTokenEnc seed : Bytes} {nonce : Nonce} :
    Within (AddsVouched vouched) (attempt (createUserWithOauthSeedWrap S ⟨some email,none,projectId⟩
      uuid provider providerName sub accessTokenEnc seed nonce)) ↔
    ((∃ new, newOauthSeedWrappingForUser S ⟨uuid,some email,none,projectId⟩ providerName sub seed
      nonce = .ok new) → vouched email) := by
  constructor
  · rintro ⟨steps,_⟩ ⟨new,wrapped⟩
    let w := noAccounts ⟨projectId,uuid⟩ provider
    obtain ⟨w',created,users⟩ : ∃ w', createUserWithOauthSeedWrap S ⟨some email,none,projectId⟩ uuid
        provider providerName sub accessTokenEnc seed nonce w =
          .ok (⟨uuid,some email,none,projectId⟩,w') ∧
        w'.db.users = [⟨uuid,some email,none,projectId⟩] := by
      have inserted : w.db.insertUser S.citextLower uuid ⟨some email,none,projectId⟩ =
        .ok (⟨uuid,some email,none,projectId⟩,{ w.db with users :=
          [⟨uuid,some email,none,projectId⟩] }) :=
          rfl
      simp only [createUserWithOauthSeedWrap, inserted, databaseFailed, Except.mapError,
        Outcome.bind_eq_ok]
      exact ⟨_,⟨_,rfl,new,wrapped,rfl⟩,
        congrArg Database.users (Database.upsertByCredential_eq _ new)⟩
    have moved := steps w
    simp only [created] at moved
    rcases moved with same | same | ⟨user,other,added,named,vouches⟩
    · rw [same] at users
      cases users
    · rw [same] at users
      cases users
    · rw [users] at added
      obtain rfl : user = ⟨uuid,some email,none,projectId⟩ := (List.cons.inj added).1.symm
      cases named
      exact vouches
  · intro vouches
    refine within_attempt fun w user w' created => ?_
    obtain ⟨_,_,_,_,db,_⟩ := createUserWithOauthSeedWrap_ok created
    simp only [createUserWithOauthSeedWrap, Outcome.bind_eq_ok, databaseFailed_eq_ok] at created
    obtain ⟨⟨row,tables⟩,inserted,new,wrapped,same⟩ := created
    cases same
    obtain ⟨rfl,_,_⟩ := insertUser_ok inserted
    refine .inr ⟨⟨uuid,some email,none,projectId⟩,email,?_,rfl,vouches ⟨new,wrapped⟩⟩
    rw [db, Database.upsertByCredential_eq]
    rfl

theorem within_findOrCreate (assertion : ProviderAssertion) (projectId : Int32) (draws : Draws) :
    Within (AddsVouched vouched) (findOrCreateUserFromOauth S assertion projectId draws) ↔
    ∀ email, assertion.email = some email →
      (∃ enc, encryptAccessToken S assertion.accessToken (draws.nonce 0) = .ok enc) →
      CanCreate S assertion.providerName assertion.providerUserId email projectId draws →
      vouched email := by
  simp only [CanCreate, findOrCreateUserFromOauth, createOauthUser]
  constructor
  · rintro steps email named ⟨enc,encrypted⟩ ⟨present,new,wrapped⟩
    let provider : OAuthProvider := ⟨0,assertion.providerName⟩
    let w := noAccounts ⟨projectId,draws.uuid⟩ provider
    have found : w.db.getOauthProviderByName assertion.providerName = some provider :=
      List.find?_cons_of_pos (decide_eq_true rfl)
    simp [Option.forall, within_createUser] at steps
    exact steps w provider found w rfl email named (by simpa using present) w rfl enc encrypted new
      wrapped
  · intro vouches
    simp [Option.forall, within_createUser]
    intro _ _ _ _ _ email named present _ _ enc encrypted new wrapped
    exact vouches email named ⟨enc,encrypted⟩ ⟨by simpa using present,new,wrapped⟩

theorem within_handleAppleNativeSignin (sub : Text)
    (tokenEmail requestEmail userIdentifier : Option Text) (clientId : Uuid) (draws : Draws) :
    Within (AddsVouched vouched)
      (handleAppleNativeSignin S sub tokenEmail requestEmail userIdentifier clientId draws) ↔
    ∀ email projectId, userIdentifier.all (· = sub) = true →
      tokenEmail.or requestEmail = some email →
      CanCreate S "apple" sub email projectId draws → vouched email := by
  unfold handleAppleNativeSignin
  generalize "apple" = apple
  generalize tokenEmail.or requestEmail = asked
  constructor
  · intro steps email projectId identified named creatable
    let provider : OAuthProvider := ⟨0,apple⟩
    let w := noAccounts ⟨projectId,clientId⟩ provider
    have project : w.db.getOrgProjectByClientId clientId = some ⟨projectId,clientId⟩ :=
      List.find?_cons_of_pos (decide_eq_true rfl)
    have found : w.db.getOauthProviderByName apple = some provider :=
      List.find?_cons_of_pos (decide_eq_true rfl)
    have present : email ≠ [] := by
      rintro rfl
      exact absurd creatable.1 nofun
    simp [Option.forall, within_findOrCreate] at steps
    exact steps w _ project identified w provider found w rfl email named present [] rfl creatable
  · intro vouches
    simp [Option.forall, within_findOrCreate]
    intro _ project _ identified _ _ _ _ _ email named _ _ _ creatable
    exact vouches email project.id identified named creatable

theorem fetchGoogleUser_ok {answered user : GoogleUser}
    (fetched : fetchGoogleUser answered = .ok user) :
    user = answered ∧ answered.emailVerified = true := by
  unfold fetchGoogleUser at fetched
  split at fetched
  · cases fetched
  · cases fetched
    simp_all

theorem fetchAppleUser_ok {claims user : AppleIdTokenClaims}
    (fetched : fetchAppleUser claims = .ok user) :
    user = claims ∧ claims.emailVerified = some true := by
  unfold fetchAppleUser at fetched
  split at fetched
  · cases fetched
    simp_all [Option.getD_eq_iff]
  · cases fetched

theorem within_googleCallback (answer : Except ApiError (GoogleUser × Text)) (clientId : Uuid)
    (draws : Draws) : Within (AddsVouched (SignIn.google answer clientId draws).Vouched)
      (googleCallback S answer clientId draws) := by
  simp [googleCallback, within_findOrCreate]
  intro _ project _ answered accessToken came user fetched _ _ _
  obtain ⟨rfl,verified⟩ := fetchGoogleUser_ok fetched
  exact ⟨user,accessToken,came,rfl,verified⟩

theorem within_appleCallback (answer : Except ApiError (AppleIdTokenClaims × Option Text))
    (clientId : Uuid) (draws : Draws) :
    Within (AddsVouched (SignIn.appleWeb answer clientId draws).Vouched)
      (appleCallback S answer clientId draws) := by
  simp [appleCallback, within_findOrCreate]
  intro _ project _ claims refreshToken came user fetched email named _ _ _
  obtain ⟨rfl,verified⟩ := fetchAppleUser_ok fetched
  exact ⟨user,refreshToken,came,named,verified⟩

end

/-- Every account a sign-in adds, whatever else happens in between, has an email
    that the provider calls verified, if and only if the request is trustworthy.
    Every request to the two web flows is. -/
theorem oauth_accounts_vouched_iff (S : AppState) (request : SignIn) :
    Within (AddsVouched request.Vouched) (signIn S request) ↔ request.Trustworthy S := by
  cases request with
  | google answer clientId draws => exact iff_of_true (within_googleCallback _ _ _) trivial
  | appleWeb answer clientId draws => exact iff_of_true (within_appleCallback _ _ _) trivial
  | appleNative token email userIdentifier clientId draws =>
    cases token with
    | error e => exact iff_of_true (by simp [signIn, appleNative]) trivial
    | ok claims =>
      simp only [signIn, appleNative, within_handleAppleNativeSignin, SignIn.Vouched,
        SignIn.Trustworthy, Except.ok.injEq, exists_eq_left']

def sampleSignIn (token : AppleIdTokenClaims) (email : Option Text) : SignIn :=
  .appleNative (.ok token) email none (sampleUuid 1) (sampleDraws 7)

def beforeSignIn : World := noAccounts ⟨42,sampleUuid 1⟩ ⟨1,"apple"⟩

def afterSignIn (request : SignIn) : World :=
  ((signIn transparentState request).run.finish beforeSignIn).2

/-- Apple's token names no email and the client supplies somebody's; or the
    token names one that it says is not verified. An account is made with either. -/
theorem native_signin_takes_unverified_email :
    (afterSignIn (sampleSignIn ⟨"sub",none,none⟩ (some "a@b.c".toList))).db.users.map User.email =
      [some "a@b.c".toList] ∧
    ¬ (sampleSignIn ⟨"sub",none,none⟩ (some "a@b.c".toList)).Vouched "a@b.c" ∧
    (afterSignIn (sampleSignIn ⟨"sub",some "a@b.c".toList,some false⟩ none)).db.users.map
      User.email = [some "a@b.c".toList] ∧
    ¬ (sampleSignIn ⟨"sub",some "a@b.c".toList,some false⟩ none).Vouched "a@b.c" := by
  refine ⟨by decide +kernel,?_,by decide +kernel,?_⟩
  · rintro ⟨_,same,named,_⟩
    cases same
    cases named
  · rintro ⟨_,same,_,verified⟩
    cases same
    cases verified

theorem verified_token_email_is_vouched :
    (afterSignIn (sampleSignIn ⟨"sub",some "a@b.c".toList,some true⟩ none)).db.users.map
      User.email = [some "a@b.c".toList] ∧
    Within (AddsVouched (sampleSignIn ⟨"sub",some "a@b.c".toList,some true⟩ none).Vouched)
      (signIn transparentState (sampleSignIn ⟨"sub",some "a@b.c".toList,some true⟩ none)) := by
  refine ⟨by decide +kernel,(oauth_accounts_vouched_iff _ _).mpr ?_⟩
  intro email _ _ asked _
  exact ⟨asked,rfl⟩

end OpenSecret

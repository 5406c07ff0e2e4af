import OpenSecret.Credentials.Tokens
import OpenSecret.Foundation.Interleaving

/-!
The handlers that create, check, rotate and release credentials, cut at their
database calls. Next to the tables stands a journal, newest event first: it
records what the enclave has done and no handler reads it. Random values and
clock readings are drawn before a request starts. Sending mail, email
verification rows and the exchange with an OAuth provider are left out; what
the provider asserted is part of the request.
-/
namespace OpenSecret
open Framing Interleaving

structure Account where
  uuid : Uuid
  email : Option Text
  projectId : Int32
  deriving DecidableEq

def User.account (user : User) : Account := ⟨user.uuid,user.email,user.projectId⟩

inductive Cause where
  | registration
  | passwordChange
  | destructiveReset
  deriving DecidableEq, Repr

/-- `stored` is a password verifier committed to the users table together with
    the seed its wrap holds, `verified` the check of a presented credential. -/
inductive Event where
  | created (account : Account)
  | wrapped (facts : AuthFacts) (seed sealed : Bytes)
  | stored (cause : Cause) (facts : AuthFacts) (seed : Bytes)
  | verified (facts : AuthFacts) (presented : Text)
  | signed (claims : Claims)
  | tampered
  deriving DecidableEq

structure World where
  db : Database
  journal : List Event

def World.log (w : World) (events : List Event) : World := { w with journal := events ++ w.journal }

inductive Error where
  | databaseError (e : DBError)
  | encryptionError (message : Text)
  | authenticationError
  | userAlreadyExists
  | userNotFound
  | passwordResetExpired
  | invalidPasswordResetSecret
  | invalidPasswordResetRequest
  deriving DecidableEq, Repr

def Error.encryption (e : EncryptError) : Error := .encryptionError e.display

abbrev Action (ε α : Type) := ExceptT (Fault ε) (Prog World) α

section
variable {ε ε' α : Type}

def fail (e : ε) : Action ε α := throw (.error e)

def query (view : Database → α) : Action ε α := inspect fun w => view w.db

def note (event : Event) : Action ε Unit := attempt fun w => .ok ((),w.log [event])

def write (update : Database → Database) : Action ε Unit :=
  attempt fun w => .ok ((),{ w with db := update w.db })

def orFail (e : ε) : Option α → Action ε α
  | some a => pure a
  | none => fail e

def require (condition : Bool) (e : ε) : Action ε Unit := if condition then pure () else fail e

def onError (f : ε → ε') (x : Action ε α) : Action ε' α := mapError (Fault.map f) x

def checked (x : Except ε α) : Action ε α := settle (x.mapError Fault.error)

/-- A logged error is not an error of the caller; a panic still is. -/
def ignoreError (x : Action ε Unit) : Action ε' Unit :=
  ExceptT.mk (x.run >>= fun
    | .error .panicked => pure (.error .panicked)
    | _ => pure (.ok ()))

end

structure Draws where
  clock : Nat → Int
  nonce : Nat → Nonce
  salt : Bytes
  uuid : Uuid
  seedWords : Bytes
  codeBytes : Octets 8

structure AuthenticatedUser where
  user : User
  authContext : AuthContext
  deriving DecidableEq

def passwordLoginIdentifierForUser (user : User) : PasswordLoginIdentifierKind × Text :=
  match user.email with
  | some email => (.email,normalizeEmailLoginIdentifier email)
  | none => (.guestUuid,normalizeGuestLoginIdentifier user.uuid)

def passwordFacts (user : User) (verifier : Text) : AuthFacts :=
  let (kind,identifier) := passwordLoginIdentifierForUser user
  ⟨user.uuid,user.projectId,.password kind identifier verifier⟩

def oauthFacts (user : User) (provider providerUserId : Text) : AuthFacts :=
  ⟨user.uuid,user.projectId,.oauth provider providerUserId⟩

section
variable (S : AppState)

def passwordAuthBindingForUser (user : User) (verifier : Text) : Outcome Error AuthBinding :=
  let (kind,identifier) := passwordLoginIdentifierForUser user
  (computePasswordAuthBinding S.primitives S.enclaveKey user.projectId user.uuid kind identifier
    verifier).mapErr Error.encryption

def passwordAuthContextForUser (user : User) (verifier : Text) : Outcome Error AuthContext := do
  let binding ← passwordAuthBindingForUser S user verifier
  return .new .password user.projectId binding.bytes

def oauthAuthBindingForUser (user : User) (provider providerUserId : Text) :
    Outcome Error AuthBinding :=
  (computeOauthAuthBinding S.primitives S.enclaveKey user.projectId user.uuid provider
    providerUserId).mapErr Error.encryption

def oauthAuthContextForUser (user : User) (provider providerUserId : Text) :
    Outcome Error AuthContext := do
  let binding ← oauthAuthBindingForUser S user provider providerUserId
  return .new .oauth user.projectId binding.bytes

/-- The loop over the candidate wraps: the first that opens is the seed. -/
def openFirst (user : User) (kind : CredentialKind) (binding : AuthBinding) :
    List UserSeedWrapping → Outcome Error Bytes
  | [] => .error (.error .authenticationError)
  | candidate :: rest =>
    if candidate.wrappingVersion ≠ seedWrapVersionV1 then
      openFirst user kind binding rest
    else
      match decryptSeedV1 S.primitives S.enclaveKey candidate.seedEnc user.uuid user.projectId kind
          binding with
      | .ok seed => .ok seed
      | .error .panicked => .error .panicked
      | .error (.error _) => openFirst user kind binding rest

def decryptSeedForAuthContext (db : Database) (user : User) (context : AuthContext) :
    Outcome Error Bytes :=
  if user.projectId ≠ context.projectId then
    .error (.error .authenticationError)
  else
    let kind := context.method.credentialKind
    openFirst S user kind ⟨context.authBinding⟩
      (db.getUserSeedWrappingsForUserAndKind user.uuid kind.asStr)

def readSeed (user : User) (context : AuthContext) : Action Error Bytes := do
  settle (← query fun db => decryptSeedForAuthContext S db user context)

def verifySeedWrapForAuthContext (user : User) (context : AuthContext) : Action Error Unit := do
  let _ ← readSeed S user context

def secretKey : Outcome Error AeadKey :=
  match S.secretKey with
  | .ok key => .ok key
  | .error text => .error (.error (.encryptionError text))

def decryptVerifier (passwordEnc : Bytes) : Outcome Error Text := do
  let key ← secretKey S
  let bytes ← (decryptWithKey S.primitives key passwordEnc).mapErr Error.encryption
  .ofOption (.encryptionError ("Failed to decode UTF-8: ".toList ++ S.utf8ErrorText bytes))
    (decodeUtf8 bytes)

def encryptUserPasswordVerifier (newPassword : Text) (salt : Bytes) (nonce : Nonce) :
    Outcome Error (Text × Bytes) := do
  let passwordHash := S.generateHash newPassword salt
  let key ← secretKey S
  let encrypted ← (encryptWithKey S.primitives key nonce (utf8 passwordHash)).mapErr
    Error.encryption
  return (passwordHash,encrypted)

def verifyNewSeedWrapping (user : User) (kind : CredentialKind)
    (authBinding : Outcome Error AuthBinding) (failure : Text) (seed : Bytes)
    (new : UserSeedWrapping) : Outcome Error Unit := do
  let binding ← authBinding
  let opened ← (decryptSeedV1 S.primitives S.enclaveKey new.seedEnc user.uuid user.projectId kind
    binding).mapErr Error.encryption
  if opened = seed then .ok () else .error (.error (.encryptionError failure))

/-- What the wraps of both credential kinds share: bind, seal, and open again
    before anything is stored. -/
def newSeedWrapping (user : User) (kind : CredentialKind) (authBinding : Outcome Error AuthBinding)
    (lookupHash : Outcome EncryptError CredentialLookupHash) (failure : Text) (seed : Bytes)
    (nonce : Nonce) : Outcome Error UserSeedWrapping := do
  let binding ← authBinding
  let lookup ← lookupHash.mapErr Error.encryption
  let seedEnc ← (encryptSeedV1 S.primitives S.enclaveKey nonce seed user.uuid user.projectId kind
    binding).mapErr Error.encryption
  let new : UserSeedWrapping := ⟨user.uuid,kind.asStr,lookup.bytes.bytes,seedWrapVersionV1,seedEnc⟩
  verifyNewSeedWrapping S user kind authBinding failure seed new
  return new

def verifyNewPasswordSeedWrappingForUser (user : User) (verifier : Text) (seed : Bytes)
    (new : UserSeedWrapping) : Outcome Error Unit :=
  verifyNewSeedWrapping S user .password (passwordAuthBindingForUser S user verifier)
    "New password seed wrap verification failed" seed new

def newPasswordSeedWrappingForUser (user : User) (verifier : Text) (seed : Bytes) (nonce : Nonce) :
    Outcome Error UserSeedWrapping :=
  newSeedWrapping S user .password (passwordAuthBindingForUser S user verifier)
    (passwordCredentialLookupHash S.primitives S.enclaveKey user.projectId user.uuid)
    "New password seed wrap verification failed" seed nonce

def newOauthSeedWrappingForUser (user : User) (provider providerUserId : Text) (seed : Bytes)
    (nonce : Nonce) : Outcome Error UserSeedWrapping :=
  newSeedWrapping S user .oauth (oauthAuthBindingForUser S user provider providerUserId)
    (oauthCredentialLookupHash S.primitives S.enclaveKey user.projectId user.uuid provider
      providerUserId)
    "New OAuth seed wrap verification failed" seed nonce

def databaseFailed {α : Type} (x : Except DBError α) : Outcome Error α :=
  x.mapError fun e => .error (.databaseError e)

def createUserWithPasswordSeedWrap (newUser : NewUser) (uuid : Uuid) (verifier : Text)
    (seed : Bytes) (nonce : Nonce) (w : World) : Outcome Error (User × World) := do
  let (user,db) ← databaseFailed (w.db.insertUser S.citextLower uuid newUser)
  let new ← newPasswordSeedWrappingForUser S user verifier seed nonce
  let facts := passwordFacts user verifier
  return (user,World.log ⟨db.upsertByCredential new,w.journal⟩
    [.stored .registration facts seed,.wrapped facts seed new.seedEnc,.created user.account])

def createUserWithOauthSeedWrap (newUser : NewUser) (uuid : Uuid) (provider : OAuthProvider)
    (providerName providerUserId : Text) (accessTokenEnc seed : Bytes) (nonce : Nonce) (w : World) :
    Outcome Error (User × World) := do
  let (user,db) ← databaseFailed (w.db.insertUser S.citextLower uuid newUser)
  let db := db.insertConnection user.uuid provider.id providerUserId accessTokenEnc
  let new ← newOauthSeedWrappingForUser S user providerName providerUserId seed nonce
  return (user,World.log ⟨db.upsertByCredential new,w.journal⟩
    [.wrapped (oauthFacts user providerName providerUserId) seed new.seedEnc,
      .created user.account])

/-- The verifier and the seed are journalled, not stored. -/
def commitPasswordChange (user : User) (expectedPasswordEnc newPasswordEnc : Bytes)
    (new : UserSeedWrapping) (verifier : Text) (seed : Bytes) (w : World) :
    Outcome Error (Unit × World) := do
  let db ← (w.db.updateUserPasswordAndSeedWrap user expectedPasswordEnc newPasswordEnc new).mapError
    fun e => Fault.error <| match e with
      | .staleCredentialState => .authenticationError
      | e => .databaseError e
  let facts := passwordFacts user verifier
  return ((),World.log ⟨db,w.journal⟩
    [.stored .passwordChange facts seed,.wrapped facts seed new.seedEnc])

def commitDestructiveReset (user : User) (request : PasswordResetRequest) (now : Int)
    (newPasswordEnc : Bytes) (new : UserSeedWrapping) (verifier : Text) (seed : Bytes) (w : World) :
    Outcome Error (Unit × World) := do
  let db ← databaseFailed
    (w.db.completeDestructivePasswordReset user request now newPasswordEnc new)
  let facts := passwordFacts user verifier
  return ((),World.log ⟨db,w.journal⟩
    [.stored .destructiveReset facts seed,.wrapped facts seed new.seedEnc])

structure RegisterCredentials where
  email : Option Text
  password : Text
  clientId : Uuid

structure LoginCredentials where
  email : Option Text
  id : Option Uuid
  password : Text
  clientId : Uuid

/-- Only an email can already be taken; guests have none. -/
def checkEmailFree (email : Option Text) (projectId : Int32) : Action Error Unit :=
  match email with
  | some email => do
    let existing ← query (Database.getUserByEmail S.citextLower · email projectId)
    require existing.isNone .userAlreadyExists
  | none => pure ()

def registerUser (creds : RegisterCredentials) (draws : Draws) : Action Error User := do
  let project ← orFail (.databaseError .orgProjectNotFound)
    (← query (·.getOrgProjectByClientId creds.clientId))
  checkEmailFree S creds.email project.id
  let (passwordHash,encrypted) ←
    settle (encryptUserPasswordVerifier S creds.password draws.salt (draws.nonce 0))
  attempt (createUserWithPasswordSeedWrap S ⟨creds.email,some encrypted,project.id⟩ draws.uuid
    passwordHash draws.seedWords (draws.nonce 1))

def findLoginUser (email : Option Text) (id : Option Uuid) (projectId : Int32) :
    Action Error User :=
  match email,id with
  | some email,_ => do
    orFail (.databaseError .userNotFound)
      (← query (Database.getUserByEmail S.citextLower · email projectId))
  | none,some id => do
    let user ← orFail (.databaseError .userNotFound) (← query (·.getUserByUuid id))
    require (user.projectId = projectId) .authenticationError
    return user
  | none,none => fail .authenticationError

def authenticateUser (email : Option Text) (id : Option Uuid)
    (password : Text) (projectId : Int32) :
    Action Error (Option AuthenticatedUser) := do
  let user ← findLoginUser S email id projectId
  match user.passwordEnc with
  | none => return none
  | some passwordEnc => do
    let verifier ← settle (decryptVerifier S passwordEnc)
    if S.verifyPassword password verifier then do
      let context ← settle (passwordAuthContextForUser S user verifier)
      note (.verified (passwordFacts user verifier) password)
      verifySeedWrapForAuthContext S user context
      return some ⟨user,context⟩
    else
      return none

structure IssuedTokens where
  who : AuthenticatedUser
  accessToken : Text
  refreshToken : Text

def signToken (claims : Claims) : Action ApiError Text := do
  note (.signed claims)
  orFail .internalServerError (S.es256kToken claims)

def issueToken (who : AuthenticatedUser) (tokenType : TokenType) (now : Int) :
    Action ApiError Text := do
  let claims ← checked (newWithAuthContext S who.user tokenType who.authContext now)
  signToken S claims

def issueTokens (who : AuthenticatedUser) (draws : Draws) : Action ApiError IssuedTokens := do
  let accessToken ← issueToken S who .access (draws.clock 0)
  let refreshToken ← issueToken S who .refresh (draws.clock 1)
  return ⟨who,accessToken,refreshToken⟩

def checkLoginUser (creds : LoginCredentials) (projectId : Int32) : Action ApiError User :=
  match creds.email,creds.id with
  | some email,_ => do
    orFail .invalidUsernameOrPassword
      (← query (Database.getUserByEmail S.citextLower · email projectId))
  | none,some id => do
    let user ← orFail .invalidUsernameOrPassword (← query (·.getUserByUuid id))
    require user.isGuest .invalidUsernameOrPassword
    require (user.projectId = projectId) .invalidUsernameOrPassword
    return user
  | none,none => fail .invalidUsernameOrPassword

def loginInternal (creds : LoginCredentials) (draws : Draws) : Action ApiError IssuedTokens := do
  let project ← orFail .badRequest (← query (·.getOrgProjectByClientId creds.clientId))
  let user ← checkLoginUser S creds project.id
  require user.passwordEnc.isSome .invalidUsernameOrPassword
  let authenticated ← onError (fun _ => .internalServerError)
    (authenticateUser S creds.email creds.id creds.password project.id)
  let who ← orFail .invalidUsernameOrPassword authenticated
  issueTokens S who draws

def register (creds : RegisterCredentials) (draws : Draws) : Action ApiError IssuedTokens := do
  let user ← onError (fun
    | .userAlreadyExists => .emailAlreadyExists
    | _ => .internalServerError) (registerUser S creds draws)
  loginInternal S ⟨creds.email,some user.uuid,creds.password,creds.clientId⟩ draws

def refreshToken (token : Text) (draws : Draws) : Action ApiError IssuedTokens := do
  let claims ← checked (validateToken S token userRefresh (draws.clock 2))
  let userId ← orFail .invalidJwt (S.parseUuid claims.sub)
  let user ← orFail .unauthorized (← query (·.getUserByUuid userId))
  let context ← checked (AuthContext.fromClaims S claims)
  onError (fun _ => .invalidJwt) (verifySeedWrapForAuthContext S user context)
  issueTokens S ⟨user,context⟩ draws

def validateJwt (authorization : Option Text) (now : Int) : Action ApiError AuthenticatedUser := do
  let token ← orFail .invalidJwt (authorization.bind (·.dropPrefix? "Bearer "))
  let claims ← checked (validateToken S token userAccess now)
  let context ← checked (AuthContext.fromClaims S claims)
  let userId ← orFail .invalidJwt (S.parseUuid claims.sub)
  let user ← orFail .internalServerError (← query (·.getUserByUuid userId))
  require (user.projectId = context.projectId) .invalidJwt
  onError (fun _ => .invalidJwt) (verifySeedWrapForAuthContext S user context)
  return ⟨user,context⟩

def updateUserPasswordAndSeedWrap (user : User) (context : AuthContext) (newPassword : Text)
    (draws : Draws) : Action Error AuthContext := do
  let expected ← orFail .authenticationError user.passwordEnc
  let seed ← readSeed S user context
  let (passwordHash,encrypted) ←
    settle (encryptUserPasswordVerifier S newPassword draws.salt (draws.nonce 0))
  let new ← settle (newPasswordSeedWrappingForUser S user passwordHash seed (draws.nonce 1))
  let newContext ← settle (passwordAuthContextForUser S user passwordHash)
  attempt (commitPasswordChange user expected encrypted new passwordHash seed)
  note (.verified (passwordFacts user passwordHash) newPassword)
  verifySeedWrapForAuthContext S user newContext
  return newContext

def changePassword (authorization : Option Text) (currentPassword newPassword : Text)
    (draws : Draws) : Action ApiError IssuedTokens := do
  let who ← validateJwt S authorization (draws.clock 2)
  require who.user.passwordEnc.isSome .invalidUsernameOrPassword
  let authenticated ← onError (fun _ => .invalidUsernameOrPassword)
    (authenticateUser S who.user.email (some who.user.uuid) currentPassword who.user.projectId)
  let current ← orFail .invalidUsernameOrPassword authenticated
  require (current.user.uuid = who.user.uuid) .invalidUsernameOrPassword
  let newContext ← onError (fun
    | .authenticationError => .invalidUsernameOrPassword
    | _ => .internalServerError)
    (updateUserPasswordAndSeedWrap S who.user who.authContext newPassword draws)
  issueTokens S ⟨who.user,newContext⟩ draws

def resetCodeCharset : Text := "ABCDEFGHIJKLMNOPQRSTUVWXYZ0123456789"

def generateAlphanumericCode (codeBytes : Octets 8) : Text :=
  codeBytes.bytes.map fun b => resetCodeCharset.getD (b.toNat % resetCodeCharset.length) 'A'

def createPasswordResetRequest (email hashedSecret : Text) (projectId : Int32) (draws : Draws) :
    Action Error Unit := do
  match ← query (Database.getUserByEmail S.citextLower · email projectId) with
  | none => pure ()
  | some user =>
    if user.email.isSome && user.passwordEnc.isSome then do
      let code ← settle ((passwordResetCodeMac S.primitives S.enclaveKey projectId user.uuid
        (generateAlphanumericCode draws.codeBytes)).mapErr Error.encryption)
      write (·.createPasswordResetRequest user.uuid hashedSecret code.bytes
        (draws.clock 0 + 24 * 3600))
    else pure ()

def passwordResetRequest (email hashedSecret : Text) (clientId : Uuid) (draws : Draws) :
    Action ApiError Unit := do
  let project ← orFail .badRequest (← query (·.getOrgProjectByClientId clientId))
  match ← query (Database.getUserByEmail S.citextLower · email project.id) with
  | none => pure ()
  | some user =>
    if user.passwordEnc.isNone then
      pure ()
    else
      ignoreError (createPasswordResetRequest S email hashedSecret project.id draws)

def confirmPasswordReset (email alphanumericCode plaintextSecret newPassword : Text)
    (projectId : Int32) (draws : Draws) : Action Error Unit := do
  let user ← orFail (.databaseError .userNotFound)
    (← query (Database.getUserByEmail S.citextLower · email projectId))
  require (user.email.isSome && user.passwordEnc.isSome) .userNotFound
  let code ← settle ((passwordResetCodeMac S.primitives S.enclaveKey projectId user.uuid
    alphanumericCode).mapErr Error.encryption)
  let request ← orFail .invalidPasswordResetRequest
    (← query (·.getPasswordResetRequestByUserIdAndCode user.uuid code.bytes))
  require (draws.clock 0 ≤ request.expirationTime) .passwordResetExpired
  require (S.generateResetHash plaintextSecret = request.hashedSecret) .invalidPasswordResetSecret
  let (passwordHash,encrypted) ←
    settle (encryptUserPasswordVerifier S newPassword draws.salt (draws.nonce 0))
  let new ← settle
    (newPasswordSeedWrappingForUser S user passwordHash draws.seedWords (draws.nonce 1))
  settle (verifyNewPasswordSeedWrappingForUser S user passwordHash draws.seedWords new)
  attempt (commitDestructiveReset user request (draws.clock 1) encrypted new passwordHash
    draws.seedWords)

def passwordResetConfirm (email alphanumericCode plaintextSecret newPassword : Text)
    (clientId : Uuid) (draws : Draws) : Action ApiError Unit := do
  let project ← orFail .badRequest (← query (·.getOrgProjectByClientId clientId))
  let user ← orFail .invalidUsernameOrPassword
    (← query (Database.getUserByEmail S.citextLower · email project.id))
  require user.passwordEnc.isSome .invalidUsernameOrPassword
  onError (fun
    | .passwordResetExpired => .badRequest
    | .invalidPasswordResetSecret => .badRequest
    | .invalidPasswordResetRequest => .badRequest
    | _ => .internalServerError)
    (confirmPasswordReset S email alphanumericCode plaintextSecret newPassword project.id draws)

/-- What an OAuth provider has asserted about the person signing in. -/
structure ProviderAssertion where
  providerName : Text
  providerUserId : Text
  email : Option Text
  accessToken : Text

def authenticatedOauthUser (user : User) (provider providerUserId : Text) :
    Action ApiError AuthenticatedUser := do
  let context ← onError (fun _ => .internalServerError)
    (settle (oauthAuthContextForUser S user provider providerUserId))
  note (.verified (oauthFacts user provider providerUserId) providerUserId)
  onError (fun _ => .unauthorized) (verifySeedWrapForAuthContext S user context)
  return ⟨user,context⟩

def encryptAccessToken (accessToken : Text) (nonce : Nonce) : Outcome ApiError Bytes :=
  if accessToken.isEmpty then .ok []
  else
    match S.secretKey with
    | .ok key => (encryptWithKey S.primitives key nonce (utf8 accessToken)).mapErr
        fun _ => .internalServerError
    | .error _ => .error (.error .internalServerError)

/-- An empty token leaves the stored one as it was read. -/
def updateProviderConnection (connection : UserOAuthConnection) (token : Text) (nonce : Nonce) :
    Action ApiError Unit := do
  let encrypted ← settle (encryptAccessToken S token nonce)
  let enc := if token.isEmpty then connection.accessTokenEnc else encrypted
  write (·.updateUserOauthConnection { connection with accessTokenEnc := enc })

def signInWithConnection (connection : UserOAuthConnection) (assertion : ProviderAssertion)
    (projectId : Int32) (draws : Draws) : Action ApiError AuthenticatedUser := do
  let user ← orFail .internalServerError (← query (·.getUserByUuid connection.userId))
  require (user.projectId = projectId) .unauthorized
  updateProviderConnection S connection assertion.accessToken (draws.nonce 0)
  authenticatedOauthUser S user assertion.providerName assertion.providerUserId

def createOauthUser (provider : OAuthProvider) (assertion : ProviderAssertion) (email : Text)
    (projectId : Int32) (draws : Draws) : Action ApiError AuthenticatedUser := do
  let accessTokenEnc ← settle (encryptAccessToken S assertion.accessToken (draws.nonce 0))
  let user ← onError (fun _ => .internalServerError)
    (attempt (createUserWithOauthSeedWrap S ⟨some email,none,projectId⟩ draws.uuid provider
      assertion.providerName assertion.providerUserId accessTokenEnc draws.seedWords
      (draws.nonce 1)))
  authenticatedOauthUser S user assertion.providerName assertion.providerUserId

def findOrCreateUserFromOauth (assertion : ProviderAssertion) (projectId : Int32) (draws : Draws) :
    Action ApiError AuthenticatedUser := do
  let provider ← orFail .internalServerError
    (← query (·.getOauthProviderByName assertion.providerName))
  let found ← query (·.getProjectUserOauthConnectionByProviderSubject provider.id
    assertion.providerUserId projectId)
  match ← checked (found.mapError fun _ => .internalServerError) with
  | some connection => signInWithConnection S connection assertion projectId draws
  | none => do
    let email ← orFail .noEmailFound
      (assertion.email.filter fun email => !(Text.trim email).isEmpty)
    let existing ← query (Database.getUserByEmail S.citextLower · email projectId)
    require existing.isNone .userExistsNotLinked
    createOauthUser S provider assertion email projectId draws

/-- The response panics for a user without an email. -/
def oauthCallbackResponse (who : AuthenticatedUser) (draws : Draws) :
    Action ApiError IssuedTokens := do
  let tokens ← onError (fun _ => .internalServerError) (issueTokens S who draws)
  settle (if who.user.email.isSome then .ok tokens else .error .panicked)

def oauthCallback (assertion : ProviderAssertion) (clientId : Uuid) (draws : Draws) :
    Action ApiError IssuedTokens := do
  let project ← orFail .badRequest (← query (·.getOrgProjectByClientId clientId))
  let who ← findOrCreateUserFromOauth S assertion project.id draws
  oauthCallbackResponse S who draws

/-- `sub` and `tokenEmail` come from the validated identity token; the client
    may add an email of its own. Names are left out. -/
def handleAppleNativeSignin (sub : Text) (tokenEmail requestEmail userIdentifier : Option Text)
    (clientId : Uuid) (draws : Draws) : Action ApiError IssuedTokens := do
  let project ← orFail .badRequest (← query (·.getOrgProjectByClientId clientId))
  require (userIdentifier.all (· = sub)) .badRequest
  let provider ← orFail .internalServerError (← query (·.getOauthProviderByName "apple"))
  let found ← query (·.getProjectUserOauthConnectionByProviderSubject provider.id sub project.id)
  let assertion : ProviderAssertion := ⟨"apple",sub,tokenEmail.or requestEmail,[]⟩
  match ← checked (found.mapError fun _ => .internalServerError) with
  | some connection => do
    let who ← signInWithConnection S connection assertion project.id draws
    oauthCallbackResponse S who draws
  | none => do
    let email ← orFail .noEmailFound (assertion.email.filter fun email => !email.isEmpty)
    let who ← findOrCreateUserFromOauth S { assertion with email := some email } project.id draws
    oauthCallbackResponse S who draws

def generateThirdPartyToken (authorization : Option Text) (audience : Option Text) (draws : Draws) :
    Action ApiError Unit := do
  let who ← validateJwt S authorization (draws.clock 2)
  require (audience.all fun aud => !(aud.isEmpty || (aud.contains ':' && !S.parsesAsUrl aud)))
    .badRequest
  let project ← orFail .internalServerError (← query (·.getOrgProjectById who.user.projectId))
  let claims ← checked (newThirdParty S who.user
    (.thirdParty audience project.clientId.hyphenated) (draws.clock 0))
  let _ ← signToken S claims

/-- Platform sign-in is not modelled: any platform token may be signed at any time. -/
def issuePlatformToken (platformUser : Uuid) (tokenType : TokenType) (draws : Draws) :
    Action ApiError Unit := do
  let claims ← checked (newForPlatformUser S platformUser tokenType (draws.clock 0))
  let _ ← signToken S claims

end

inductive Request where
  | register (creds : RegisterCredentials) (draws : Draws)
  | login (creds : LoginCredentials) (draws : Draws)
  | refresh (token : Text) (draws : Draws)
  | authorize (authorization : Option Text) (draws : Draws)
  | changePassword (authorization : Option Text) (currentPassword newPassword : Text)
      (draws : Draws)
  | requestReset (email hashedSecret : Text) (clientId : Uuid) (draws : Draws)
  | confirmReset (email alphanumericCode plaintextSecret newPassword : Text) (clientId : Uuid)
      (draws : Draws)
  | oauthCallback (assertion : ProviderAssertion) (clientId : Uuid) (draws : Draws)
  | appleNativeSignin (sub : Text) (tokenEmail requestEmail userIdentifier : Option Text)
      (clientId : Uuid) (draws : Draws)
  | thirdPartyToken (authorization audience : Option Text) (draws : Draws)
  | platformToken (platformUser : Uuid) (tokenType : TokenType) (draws : Draws)

inductive Reply where
  | tokens (issued : IssuedTokens)
  | authorized (who : AuthenticatedUser)
  | finished

def Reply.who : Reply → Option AuthenticatedUser
  | .tokens issued => some issued.who
  | .authorized who => some who
  | .finished => none

def handle (S : AppState) : Request → Action ApiError Reply
  | .register creds draws => Reply.tokens <$> register S creds draws
  | .login creds draws => Reply.tokens <$> loginInternal S creds draws
  | .refresh token draws => Reply.tokens <$> refreshToken S token draws
  | .authorize authorization draws =>
    Reply.authorized <$> validateJwt S authorization (draws.clock 0)
  | .changePassword authorization current new draws =>
    Reply.tokens <$> changePassword S authorization current new draws
  | .requestReset email secret clientId draws =>
    (fun _ => Reply.finished) <$> passwordResetRequest S email secret clientId draws
  | .confirmReset email code secret new clientId draws =>
    (fun _ => Reply.finished) <$> passwordResetConfirm S email code secret new clientId draws
  | .oauthCallback assertion clientId draws =>
    Reply.tokens <$> oauthCallback S assertion clientId draws
  | .appleNativeSignin sub tokenEmail requestEmail userIdentifier clientId draws =>
    Reply.tokens <$>
      handleAppleNativeSignin S sub tokenEmail requestEmail userIdentifier clientId draws
  | .thirdPartyToken authorization audience draws =>
    (fun _ => Reply.finished) <$> generateThirdPartyToken S authorization audience draws
  | .platformToken platformUser tokenType draws =>
    (fun _ => Reply.finished) <$> issuePlatformToken S platformUser tokenType draws

end OpenSecret

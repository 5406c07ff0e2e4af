import OpenSecret.Credentials.Store

/-!
Signed user tokens of `jwt.rs`. Signing, base64, uuid parsing, password hashing
and the clock belong to the environment: they are fields of the application
state or arguments. Issue and maturity times are written but never read, so
only the expiration of a token is modelled.
-/
namespace OpenSecret
open Framing

structure CustomClaims where
  sub : Text
  aud : Option Text
  azp : Option Text
  role : Option Text
  tokenFormat : Option Nat
  authMethod : Option Text
  projectId : Option Int32
  authBinding : Option Text
  deriving DecidableEq

structure Claims where
  custom : CustomClaims
  expiration : Option Int
  deriving DecidableEq

/-- `secretKey` is `SecretKey::from_slice` of the enclave key, an error with its text. -/
structure AppState where
  primitives : Primitives
  enclaveKey : Bytes
  secretKey : Except Text AeadKey
  generateHash : (password : Text) → (salt : Bytes) → Text
  verifyPassword : (password verifier : Text) → Bool
  generateResetHash : Text → Text
  utf8ErrorText : Bytes → Text
  citextLower : Text → Text
  parseUuid : Text → Option Uuid
  base64Encode : Bytes → Text
  base64Decode : Text → Option Bytes
  es256kToken : Claims → Option Text
  es256kValidate : Text → Option Claims
  isAlphanumeric : Char → Bool
  parsesAsUrl : Text → Bool
  accessTokenMaxage : Int
  refreshTokenMaxage : Int

inductive ApiError where
  | invalidUsernameOrPassword
  | invalidJwt
  | internalServerError
  | serviceUnavailable
  | badRequest
  | conflict
  | encryptionError
  | unauthorized
  | invalidInviteCode
  | refreshFailed
  | userAlreadyVerified
  | noEmailFound
  | userExistsNotLinked
  | userNotFound
  | emailAlreadyExists
  | usageLimitReached
  | freeTokenLimitExceeded
  | modelNotAvailableOnPlan
  | messageExceedsContextLimit
  | notFound
  | unprocessableEntity
  | payloadTooLarge
  | tooManyRequests
  deriving DecidableEq, Repr

def userAccess : Text := "access"
def userRefresh : Text := "refresh"
def platformAccess : Text := "platform_access"
def platformRefresh : Text := "platform_refresh"
def userTokenFormatV2 : Nat := 2

inductive TokenType where
  | access
  | refresh
  | thirdParty (aud : Option Text) (azp : Text)
  deriving DecidableEq

inductive AuthMethod where
  | password
  | oauth
  deriving DecidableEq, Repr

namespace AuthMethod

def asStr : AuthMethod → Text
  | .password => "password"
  | .oauth => "oauth"

def fromStr (value : Text) : Except ApiError AuthMethod :=
  if value = "password" then .ok .password
  else if value = "oauth" then .ok .oauth
  else .error .invalidJwt

def credentialKind : AuthMethod → CredentialKind
  | .password => .password
  | .oauth => .oauth

@[simp] theorem fromStr_asStr (method : AuthMethod) : fromStr method.asStr = .ok method := by
  cases method <;> rfl

@[simp] theorem credentialKind_asStr (method : AuthMethod) :
    method.credentialKind.asStr = method.asStr := by
  cases method <;> rfl

theorem fromStr_ok {value : Text} {method : AuthMethod} (h : fromStr value = .ok method) :
    value = method.asStr := by
  unfold fromStr at h
  split at h
  · cases h; assumption
  · split at h
    · cases h; assumption
    · cases h

end AuthMethod

structure AuthContext where
  tokenFormat : Nat
  method : AuthMethod
  projectId : Int32
  authBinding : Octets 32
  deriving DecidableEq

namespace AuthContext

def new (method : AuthMethod) (projectId : Int32) (authBinding : Octets 32) : AuthContext :=
  ⟨userTokenFormatV2,method,projectId,authBinding⟩

def applyToClaims (S : AppState) (context : AuthContext) (claims : CustomClaims) : CustomClaims :=
  { claims with
    tokenFormat := some context.tokenFormat
    authMethod := some context.method.asStr
    projectId := some context.projectId
    authBinding := some (S.base64Encode context.authBinding.bytes) }

def fromClaims (S : AppState) (claims : CustomClaims) : Except ApiError AuthContext :=
  if claims.tokenFormat = some userTokenFormatV2 then
    match claims.authMethod,claims.projectId,claims.authBinding.bind S.base64Decode with
    | some name,some projectId,some bytes => do
      let method ← AuthMethod.fromStr name
      if size : bytes.length = 32 then
        return ⟨userTokenFormatV2,method,projectId,⟨bytes,size⟩⟩
      else
        throw .invalidJwt
    | _,_,_ => .error .invalidJwt
  else
    .error .invalidJwt

theorem fromClaims_ok {S : AppState} {claims : CustomClaims} {context : AuthContext}
    (h : fromClaims S claims = .ok context) :
    claims.tokenFormat = some userTokenFormatV2 ∧ context.tokenFormat = userTokenFormatV2 ∧
      claims.authMethod = some context.method.asStr ∧
      claims.projectId = some context.projectId ∧
      claims.authBinding.bind S.base64Decode = some context.authBinding.bytes := by
  unfold fromClaims at h
  split at h
  · rename_i format
    split at h
    · rename_i name project bytes nameClaim projectClaim bindingClaim
      cases parsed : AuthMethod.fromStr name with
      | error e => rw [parsed] at h; cases h
      | ok method =>
        rw [parsed] at h
        simp only [bind, Except.bind] at h
        split at h
        · cases h
          rw [nameClaim, AuthMethod.fromStr_ok parsed]
          exact ⟨format,rfl,rfl,projectClaim,bindingClaim⟩
        · cases h
    · cases h
  · cases h

end AuthContext

/-- Issued one minute in the past, to allow for clock drift. -/
def contextClaims (S : AppState) (user : User) (context : AuthContext) (aud : Text)
    (duration now : Int) : Claims :=
  let custom : CustomClaims := ⟨user.uuid.hyphenated,some aud,none,none,none,none,none,none⟩
  ⟨context.applyToClaims S custom,some (now - 60 + duration)⟩

def newWithAuthContext (S : AppState) (user : User) (tokenType : TokenType) (context : AuthContext)
    (now : Int) : Except ApiError Claims :=
  if user.projectId ≠ context.projectId then
    .error .badRequest
  else
    match tokenType with
    | .access => .ok (contextClaims S user context userAccess (S.accessTokenMaxage * 60) now)
    | .refresh => .ok (contextClaims S user context userRefresh (S.refreshTokenMaxage * 86400) now)
    | .thirdParty _ _ => .error .badRequest

variable {S : AppState} {user : User} {tokenType : TokenType} {now : Int}

theorem newWithAuthContext_ok {context : AuthContext} {claims : Claims}
    (h : newWithAuthContext S user tokenType context now = .ok claims) :
    user.projectId = context.projectId ∧
      ∃ aud duration, claims = contextClaims S user context aud duration now := by
  unfold newWithAuthContext at h
  split at h
  · cases h
  · rename_i same
    refine ⟨Classical.not_not.mp same,?_⟩
    cases tokenType with
    | access => cases h; exact ⟨_,_,rfl⟩
    | refresh => cases h; exact ⟨_,_,rfl⟩
    | thirdParty aud azp => cases h

def validateThirdPartyAudience (S : AppState) (aud : Text) : Except ApiError Unit := do
  if aud ∈ [userAccess,userRefresh,platformAccess,platformRefresh] then throw .badRequest
  if (utf8 aud).length > 50 then throw .badRequest
  if aud.contains '\x00' then throw .badRequest
  if !aud.all (fun c => S.isAlphanumeric c || c ∈ ".-:/_~?&=+%#".toList) then throw .badRequest
  if aud.isEmpty then throw .badRequest
  if aud.contains ':' && !S.parsesAsUrl aud then throw .badRequest

/-- The claims `NewToken::new` signs; a project with its own secret gets them
    under another key, which only makes fewer tokens verify. -/
def newThirdParty (S : AppState) (user : User) (tokenType : TokenType) (now : Int) :
    Except ApiError Claims :=
  match tokenType with
  | .thirdParty aud azp => do
    if let some aud := aud then validateThirdPartyAudience S aud
    let custom : CustomClaims :=
      ⟨user.uuid.hyphenated,aud,some azp,some "authenticated".toList,none,none,none,none⟩
    return ⟨custom,some (now - 60 + 3600)⟩
  | .access | .refresh => .error .badRequest

def newForPlatformUser (S : AppState) (platformUser : Uuid) (tokenType : TokenType) (now : Int) :
    Except ApiError Claims := do
  let (aud,duration) ← match tokenType with
    | .access => pure (platformAccess,S.accessTokenMaxage * 60)
    | .refresh => pure (platformRefresh,S.refreshTokenMaxage * 86400)
    | .thirdParty _ _ => throw .badRequest
  let custom : CustomClaims := ⟨platformUser.hyphenated,some aud,none,none,none,none,none,none⟩
  return ⟨custom,some (now - 60 + duration)⟩

theorem newThirdParty_format {claims : Claims}
    (h : newThirdParty S user tokenType now = .ok claims) :
    claims.custom.tokenFormat = none := by
  cases tokenType with
  | access => cases h
  | refresh => cases h
  | thirdParty aud azp =>
    cases aud with
    | none => cases h; rfl
    | some aud =>
      simp only [newThirdParty] at h
      cases checked : validateThirdPartyAudience S aud with
      | error e => rw [checked] at h; cases h
      | ok u => rw [checked] at h; cases h; rfl

theorem newForPlatformUser_format {platformUser : Uuid} {claims : Claims}
    (h : newForPlatformUser S platformUser tokenType now = .ok claims) :
    claims.custom.tokenFormat = none := by
  cases tokenType <;> cases h <;> rfl

/-- Signature, then expiration with the library's leeway of a minute, then audience. -/
def validateToken (S : AppState) (token : Text) (expectedAudience : Text) (now : Int) :
    Except ApiError CustomClaims :=
  match S.es256kValidate token with
  | none => .error .invalidJwt
  | some claims =>
    match claims.expiration with
    | none => .error .invalidJwt
    | some expiration =>
      if now > expiration + 60 then .error .invalidJwt
      else if claims.custom.aud = some expectedAudience then .ok claims.custom
      else .error .invalidJwt

theorem validateToken_ok {token audience : Text} {custom : CustomClaims}
    (h : validateToken S token audience now = .ok custom) :
    ∃ claims, S.es256kValidate token = some claims ∧ claims.custom = custom := by
  unfold validateToken at h
  split at h
  · cases h
  · rename_i claims verified
    split at h
    · cases h
    · split at h
      · cases h
      · split at h
        · cases h; exact ⟨claims,verified,rfl⟩
        · cases h

end OpenSecret

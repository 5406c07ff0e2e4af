import OpenSecret.SeedWrapping

/-!
The tables that hold credentials and the queries and transactions on them.
Rows stand in the order of their serial ids. A transaction either returns the
new tables or an error that leaves the old ones. Failed connections are not
modelled: they end a handler like a task that is never scheduled again.
-/
namespace OpenSecret
open Framing

structure User where
  uuid : Uuid
  email : Option Text
  passwordEnc : Option Bytes
  projectId : Int32
  deriving DecidableEq

def User.isGuest (user : User) : Bool := user.email.isNone

structure NewUser where
  email : Option Text
  passwordEnc : Option Bytes
  projectId : Int32

structure UserSeedWrapping where
  userId : Uuid
  credentialKind : Text
  credentialLookupHash : Bytes
  wrappingVersion : Int16
  seedEnc : Bytes
  deriving DecidableEq

structure UserOAuthConnection where
  id : Nat
  userId : Uuid
  providerId : Int32
  providerUserId : Text
  accessTokenEnc : Bytes
  deriving DecidableEq

structure PasswordResetRequest where
  id : Nat
  userId : Uuid
  hashedSecret : Text
  encryptedCode : Bytes
  expirationTime : Int
  isReset : Bool
  deriving DecidableEq

structure OrgProject where
  id : Int32
  clientId : Uuid
  deriving DecidableEq

structure OAuthProvider where
  id : Int32
  name : Text
  deriving DecidableEq

structure Database where
  users : List User
  wraps : List UserSeedWrapping
  connections : List UserOAuthConnection
  resetRequests : List PasswordResetRequest
  projects : List OrgProject
  providers : List OAuthProvider
  connectionSeq : Nat
  resetSeq : Nat

inductive DBError where
  | queryError
  | userError
  | userSeedWrappingError
  | oauthError
  | userNotFound
  | orgProjectNotFound
  | passwordResetRequestNotFound
  | staleCredentialState
  deriving DecidableEq, Repr

namespace Database

def getOrgProjectByClientId (db : Database) (clientId : Uuid) : Option OrgProject :=
  db.projects.find? (·.clientId = clientId)

def getOrgProjectById (db : Database) (id : Int32) : Option OrgProject :=
  db.projects.find? (·.id = id)

def getOauthProviderByName (db : Database) (name : Text) : Option OAuthProvider :=
  db.providers.find? (·.name = name)

def getUserByUuid (db : Database) (uuid : Uuid) : Option User := db.users.find? (·.uuid = uuid)

/-- The email column is `citext`: it compares after `lower`. -/
def hasEmail (lower : Text → Text) (email : Text) (user : User) : Bool :=
  user.email.any fun stored => lower stored = lower email

def getUserByEmail (lower : Text → Text) (db : Database) (email : Text) (projectId : Int32) :
    Option User :=
  db.users.find? fun u => hasEmail lower email u && u.projectId = projectId

def getUserSeedWrappingsForUserAndKind (db : Database) (user : Uuid) (kind : Text) :
    List UserSeedWrapping :=
  db.wraps.filter fun w => w.userId = user && w.credentialKind = kind

/-- Two matches are an error, `AmbiguousProviderSubjectForProject`. -/
def getProjectUserOauthConnectionByProviderSubject (db : Database) (providerId : Int32)
    (providerUserId : Text) (projectId : Int32) : Except DBError (Option UserOAuthConnection) :=
  let joined := db.connections.flatMap fun c =>
    (db.users.filter fun u => u.uuid = c.userId && u.projectId = projectId).map fun _ => c
  match joined.filter fun c => c.providerId = providerId && c.providerUserId = providerUserId with
  | [] => .ok none
  | [connection] => .ok (some connection)
  | _ => .error .oauthError

def getPasswordResetRequestByUserIdAndCode (db : Database) (user : Uuid) (code : Bytes) :
    Option PasswordResetRequest :=
  db.resetRequests.find? fun r => r.userId = user && r.encryptedCode = code && !r.isReset

/-- Unique keys: the uuid, and the email within its project. -/
def insertUser (lower : Text → Text) (db : Database) (uuid : Uuid) (new : NewUser) :
    Except DBError (User × Database) :=
  let clash := db.users.any fun u => u.uuid = uuid ||
    new.email.any fun email => hasEmail lower email u && u.projectId = new.projectId
  if clash then
    .error .userError
  else
    let user : User := ⟨uuid,new.email,new.passwordEnc,new.projectId⟩
    .ok (user,{ db with users := db.users ++ [user] })

def sameCredential (a b : UserSeedWrapping) : Bool :=
  a.userId = b.userId && a.credentialKind = b.credentialKind &&
    a.credentialLookupHash = b.credentialLookupHash && a.wrappingVersion = b.wrappingVersion

def insertWrapping (db : Database) (new : UserSeedWrapping) : Except DBError Database :=
  if db.wraps.any (sameCredential new) then
    .error .userSeedWrappingError
  else
    .ok { db with wraps := db.wraps ++ [new] }

def upsertByCredential (db : Database) (new : UserSeedWrapping) : Database :=
  if db.wraps.any (sameCredential new) then
    { db with wraps := db.wraps.map fun w =>
        if sameCredential new w then { w with seedEnc := new.seedEnc } else w }
  else
    { db with wraps := db.wraps ++ [new] }

def insertConnection (db : Database) (user : Uuid) (providerId : Int32) (providerUserId : Text)
    (accessTokenEnc : Bytes) : Database :=
  { db with
    connections := db.connections ++
      [⟨db.connectionSeq,user,providerId,providerUserId,accessTokenEnc⟩]
    connectionSeq := db.connectionSeq + 1 }

def updateUserOauthConnection (db : Database) (connection : UserOAuthConnection) : Database :=
  { db with connections := db.connections.map fun c =>
      if c.id = connection.id then { c with accessTokenEnc := connection.accessTokenEnc } else c }

def createPasswordResetRequest (db : Database) (user : Uuid) (hashedSecret : Text) (code : Bytes)
    (expirationTime : Int) : Database :=
  { db with
    resetRequests := db.resetRequests ++
      [⟨db.resetSeq,user,hashedSecret,code,expirationTime,false⟩]
    resetSeq := db.resetSeq + 1 }

def setPassword (db : Database) (affected : User → Bool) (passwordEnc : Bytes) : Database :=
  { db with users := db.users.map fun u =>
      if affected u then { u with passwordEnc := some passwordEnc } else u }

def deleteWraps (db : Database) (affected : UserSeedWrapping → Bool) : Database :=
  { db with wraps := db.wraps.filter fun w => !affected w }

/-- Compare and swap on the encrypted verifier the new wrap was prepared for. -/
def updateUserPasswordAndSeedWrap (db : Database) (user : User) (expectedPasswordEnc : Bytes)
    (newPasswordEnc : Bytes) (newWrapping : UserSeedWrapping) : Except DBError Database :=
  let current := fun u : User => u.uuid = user.uuid && u.passwordEnc = some expectedPasswordEnc
  if db.users.countP current ≠ 1 then
    .error .staleCredentialState
  else
    let db := db.setPassword current newPasswordEnc
    let db := db.deleteWraps fun w =>
      w.userId = user.uuid && w.credentialKind = CredentialKind.password.asStr
    db.insertWrapping newWrapping

/-- Consumes the reset request, then drops every wrap and connection of the
    account; the user's content, deleted with them, is not modelled. -/
def completeDestructivePasswordReset (db : Database) (user : User) (request : PasswordResetRequest)
    (now : Int) (newPasswordEnc : Bytes) (newWrapping : UserSeedWrapping) :
    Except DBError Database :=
  let consumed := fun r : PasswordResetRequest =>
    r.id = request.id && r.userId = user.uuid && !r.isReset && r.expirationTime > now
  if !db.users.any (·.uuid = user.uuid) then
    .error .queryError
  else if db.resetRequests.countP consumed ≠ 1 then
    .error .passwordResetRequestNotFound
  else
    let spent := fun r : PasswordResetRequest =>
      if consumed r || (r.userId = user.uuid && r.id ≠ request.id && !r.isReset) then
        { r with isReset := true }
      else r
    let db := { db with resetRequests := db.resetRequests.map spent }
    let db := db.deleteWraps (·.userId = user.uuid)
    let db := { db with connections := db.connections.filter (·.userId ≠ user.uuid) }
    let db := db.setPassword (·.uuid = user.uuid) newPasswordEnc
    .ok (db.upsertByCredential newWrapping)

end Database

end OpenSecret

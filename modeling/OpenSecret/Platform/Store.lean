import OpenSecret.Credentials.Tokens

/-!
The tables of the developer platform: its users with their password reset
requests, and organizations with their memberships and invites. Roles are the
four values the check constraint of the columns admits. Platform users are
never deleted, so the references to them always hold. Names and timestamps
that no decision reads are left out.
-/
namespace OpenSecret
open Framing

inductive OrgRole where
  | owner
  | admin
  | developer
  | viewer
  deriving DecidableEq, Repr

structure PlatformUser where
  id : Nat
  uuid : Uuid
  email : Text
  passwordEnc : Option Bytes
  deriving DecidableEq

structure PlatformPasswordResetRequest where
  id : Nat
  platformUserId : Uuid
  hashedSecret : Text
  encryptedCode : Bytes
  expirationTime : Int
  isReset : Bool
  deriving DecidableEq

/-- `resetSeq` is the next serial id of a request. -/
structure ResetTables where
  users : List PlatformUser
  resetRequests : List PlatformPasswordResetRequest
  resetSeq : Nat
  deriving DecidableEq

namespace ResetTables

def getByEmail (lower : Text → Text) (db : ResetTables) (email : Text) : Option PlatformUser :=
  db.users.find? fun u => lower u.email = lower email

def getByUserIdAndCode (db : ResetTables) (user : Uuid) (code : Bytes) (now : Int) :
    Option PlatformPasswordResetRequest :=
  db.resetRequests.find? fun r =>
    r.platformUserId = user && r.encryptedCode = code && !r.isReset && r.expirationTime > now

def insertRequest (db : ResetTables) (user : Uuid) (hashedSecret : Text) (code : Bytes)
    (expirationTime : Int) : ResetTables :=
  { db with
    resetRequests := db.resetRequests ++
      [⟨db.resetSeq,user,hashedSecret,code,expirationTime,false⟩]
    resetSeq := db.resetSeq + 1 }

def updatePassword (db : ResetTables) (user : PlatformUser) (passwordEnc : Bytes) : ResetTables :=
  { db with users := db.users.map fun u =>
      if u.id = user.id then { u with passwordEnc := some passwordEnc } else u }

def markAsReset (db : ResetTables) (request : PlatformPasswordResetRequest) : ResetTables :=
  { db with resetRequests := db.resetRequests.map fun r =>
      if r.id = request.id then { r with isReset := true } else r }

end ResetTables

structure Org where
  id : Nat
  uuid : Uuid
  deriving DecidableEq

structure OrgMembership where
  id : Nat
  platformUserId : Uuid
  orgId : Nat
  role : OrgRole
  deriving DecidableEq

structure NewOrgMembership where
  platformUserId : Uuid
  orgId : Nat
  role : OrgRole

structure InviteCode where
  id : Nat
  code : Uuid
  orgId : Nat
  email : Text
  role : OrgRole
  used : Bool
  expiresAt : Int
  deriving DecidableEq

structure NewInviteCode where
  code : Uuid
  orgId : Nat
  email : Text
  role : OrgRole
  expiresAt : Int

structure OrgTables where
  orgs : List Org
  memberships : List OrgMembership
  invites : List InviteCode
  orgSeq : Nat
  membershipSeq : Nat
  inviteSeq : Nat
  deriving DecidableEq

inductive OrgDBError where
  | constraintViolation
  | rollbackTransaction
  | alreadyUsed
  | expired
  deriving DecidableEq, Repr

namespace OrgTables

def getOrgByUuid (db : OrgTables) (uuid : Uuid) : Option Org := db.orgs.find? (·.uuid = uuid)

def getByPlatformUserAndOrg (db : OrgTables) (user : Uuid) (orgId : Nat) : Option OrgMembership :=
  db.memberships.find? fun m => m.platformUserId = user && m.orgId = orgId

def getInviteCodeByCode (db : OrgTables) (code : Uuid) : Option InviteCode :=
  db.invites.find? (·.code = code)

/-- The memberships that the owner check locks and counts. -/
def owners (db : OrgTables) (orgId : Nat) : List OrgMembership :=
  db.memberships.filter fun m => m.orgId = orgId && m.role = .owner

/-- One role per user and organization; the organization must exist. -/
def insertMembership (db : OrgTables) (new : NewOrgMembership) : Except OrgDBError OrgTables :=
  if db.memberships.any (fun m => m.platformUserId = new.platformUserId && m.orgId = new.orgId) ||
      !db.orgs.any (·.id = new.orgId) then
    .error .constraintViolation
  else
    .ok { db with
      memberships := db.memberships ++
        [⟨db.membershipSeq,new.platformUserId,new.orgId,new.role⟩]
      membershipSeq := db.membershipSeq + 1 }

def setRole (db : OrgTables) (id : Nat) (role : OrgRole) : OrgTables :=
  { db with memberships := db.memberships.map fun m =>
      if m.id = id then { m with role := role } else m }

def removeMembership (db : OrgTables) (id : Nat) : OrgTables :=
  { db with memberships := db.memberships.filter (·.id ≠ id) }

/-- `membership` is the row as it was read before the transaction: the check
    goes by its role, the update by its id. -/
def updateRoleWithOwnerCheck (db : OrgTables) (membership : OrgMembership) (newRole : OrgRole) :
    Except OrgDBError OrgTables :=
  if membership.role = .owner && newRole ≠ .owner && (db.owners membership.orgId).length ≤ 1 then
    .error .rollbackTransaction
  else
    .ok (db.setRole membership.id newRole)

def deleteWithOwnerCheck (db : OrgTables) (membership : OrgMembership) :
    Except OrgDBError OrgTables :=
  if membership.role = .owner && (db.owners membership.orgId).length ≤ 1 then
    .error .rollbackTransaction
  else
    .ok (db.removeMembership membership.id)

/-- The uuid is drawn by the database. -/
def createOrgWithOwner (db : OrgTables) (uuid ownerId : Uuid) : Except OrgDBError OrgTables :=
  if db.orgs.any (·.uuid = uuid) then
    .error .constraintViolation
  else
    insertMembership
      { db with orgs := db.orgs ++ [⟨db.orgSeq,uuid⟩], orgSeq := db.orgSeq + 1 }
      ⟨ownerId,db.orgSeq,.owner⟩

/-- Memberships and invites are deleted with their organization. -/
def deleteOrg (db : OrgTables) (org : Org) : OrgTables :=
  { db with
    orgs := db.orgs.filter (·.id ≠ org.id)
    memberships := db.memberships.filter (·.orgId ≠ org.id)
    invites := db.invites.filter (·.orgId ≠ org.id) }

def createInviteCode (db : OrgTables) (new : NewInviteCode) : Except OrgDBError OrgTables :=
  if db.invites.any (·.code = new.code) || !db.orgs.any (·.id = new.orgId) then
    .error .constraintViolation
  else
    .ok { db with
      invites := db.invites ++
        [⟨db.inviteSeq,new.code,new.orgId,new.email,new.role,false,new.expiresAt⟩]
      inviteSeq := db.inviteSeq + 1 }

def deleteInviteCode (db : OrgTables) (invite : InviteCode) : OrgTables :=
  { db with invites := db.invites.filter (·.id ≠ invite.id) }

def markAsUsed (db : OrgTables) (invite : InviteCode) (now : Int) : Except OrgDBError OrgTables :=
  if invite.used then
    .error .alreadyUsed
  else if invite.expiresAt < now then
    .error .expired
  else if db.invites.any (fun i => i.id = invite.id && !i.used) then
    .ok { db with invites := db.invites.map fun i =>
      if i.id = invite.id then { i with used := true } else i }
  else
    .error .alreadyUsed

def acceptInviteTransaction (db : OrgTables) (invite : InviteCode) (new : NewOrgMembership)
    (now : Int) : Except OrgDBError OrgTables := do
  let db ← db.insertMembership new
  db.markAsUsed invite now

end OrgTables

end OpenSecret

import OpenSecret.Foundation.Confinement
import OpenSecret.Platform.Store

/-!
The routes that create organizations, invite to them and change memberships,
cut at their database calls. Next to the tables stands the log of committed
transactions, oldest first, which no handler reads: who asked for what, and the
tables before and after. The user of a request is the one its token names;
request validation, mails and answers are left out.
-/
namespace OpenSecret
open Framing Interleaving

inductive Change where
  | createOrg (uuid ownerId : Uuid)
  | deleteOrg (org : Org)
  | createInvite (new : NewInviteCode)
  | deleteInvite (invite : InviteCode)
  | acceptInvite (invite : InviteCode) (new : NewOrgMembership) (now : Int)
  | updateRole (membership : OrgMembership) (role : OrgRole)
  | deleteMembership (membership : OrgMembership)

def Change.apply (db : OrgTables) : Change → Except OrgDBError OrgTables
  | .createOrg uuid ownerId => db.createOrgWithOwner uuid ownerId
  | .deleteOrg org => .ok (db.deleteOrg org)
  | .createInvite new => db.createInviteCode new
  | .deleteInvite invite => .ok (db.deleteInviteCode invite)
  | .acceptInvite invite new now => db.acceptInviteTransaction invite new now
  | .updateRole membership role => db.updateRoleWithOwnerCheck membership role
  | .deleteMembership membership => db.deleteWithOwnerCheck membership

structure Commit where
  actor : Uuid
  change : Change
  before : OrgTables
  after : OrgTables

structure OrgWorld where
  db : OrgTables
  log : List Commit

abbrev OrgAction (α : Type) := ExceptT ApiError (Prog OrgWorld) α

def orgQuery {α : Type} (view : OrgTables → α) : OrgAction α := inspect fun w => view w.db

def commit (actor : Uuid) (change : Change) (onError : OrgDBError → ApiError) : OrgAction Unit :=
  attempt fun w =>
    match change.apply w.db with
    | .ok db => .ok ((),⟨db,w.log ++ [⟨actor,change,w.db,db⟩]⟩)
    | .error e => .error (onError e)

def lastOwnerOr : OrgDBError → ApiError
  | .rollbackTransaction => .badRequest
  | _ => .internalServerError

def inviteSpentOr : OrgDBError → ApiError
  | .alreadyUsed => .badRequest
  | .expired => .badRequest
  | _ => .internalServerError

section
variable (user : PlatformUser)

def createOrg (uuid : Uuid) : OrgAction Unit :=
  commit user.uuid (.createOrg uuid user.uuid) fun _ => .internalServerError

def deleteOrg (orgId : Uuid) : OrgAction Unit := do
  let some org ← orgQuery (·.getOrgByUuid orgId) | throw .notFound
  let some membership ← orgQuery (·.getByPlatformUserAndOrg user.uuid org.id) | throw .unauthorized
  if membership.role = .owner then
    commit user.uuid (.deleteOrg org) fun _ => .internalServerError
  else
    throw .unauthorized

def createInvite (orgId : Uuid) (email : Text) (role : OrgRole) (code : Uuid) (now : Int) :
    OrgAction Unit := do
  let some org ← orgQuery (·.getOrgByUuid orgId) | throw .badRequest
  let some membership ← orgQuery (·.getByPlatformUserAndOrg user.uuid org.id) | throw .unauthorized
  if membership.role = .owner ∨ membership.role = .admin then
    commit user.uuid (.createInvite ⟨code,org.id,email,role,now + 24 * 3600⟩)
      fun _ => .internalServerError
  else
    throw .unauthorized

def deleteInvite (orgId code : Uuid) : OrgAction Unit := do
  let some org ← orgQuery (·.getOrgByUuid orgId) | throw .notFound
  let some membership ← orgQuery (·.getByPlatformUserAndOrg user.uuid org.id) | throw .unauthorized
  if membership.role = .owner ∨ membership.role = .admin then do
    let some invite ← orgQuery (·.getInviteCodeByCode code) | throw .notFound
    if invite.orgId = org.id then
      commit user.uuid (.deleteInvite invite) fun _ => .internalServerError
    else
      throw .notFound
  else
    throw .unauthorized

def acceptInvite (code : Uuid) (checked marked : Int) : OrgAction Unit := do
  let some invite ← orgQuery (·.getInviteCodeByCode code) | throw .notFound
  if invite.used then
    throw .badRequest
  else if invite.expiresAt < checked then
    throw .badRequest
  else if invite.email ≠ user.email then
    throw .unauthorized
  else
    commit user.uuid (.acceptInvite invite ⟨user.uuid,invite.orgId,invite.role⟩ marked)
      inviteSpentOr

/-- The last query is the one the answer is made of. -/
def updateMembership (orgId userId : Uuid) (role : OrgRole) : OrgAction Unit := do
  let some org ← orgQuery (·.getOrgByUuid orgId) | throw .notFound
  let some membership ← orgQuery (·.getByPlatformUserAndOrg user.uuid org.id) | throw .unauthorized
  if membership.role = .owner then do
    let some target ← orgQuery (·.getByPlatformUserAndOrg userId org.id) | throw .notFound
    commit user.uuid (.updateRole target role) lastOwnerOr
    let some _ ← orgQuery (·.getByPlatformUserAndOrg userId org.id) | throw .internalServerError
  else
    throw .unauthorized

def deleteMembership (orgId userId : Uuid) : OrgAction Unit := do
  let some org ← orgQuery (·.getOrgByUuid orgId) | throw .notFound
  let some membership ← orgQuery (·.getByPlatformUserAndOrg user.uuid org.id) | throw .unauthorized
  if membership.role = .owner then do
    let some target ← orgQuery (·.getByPlatformUserAndOrg userId org.id) | throw .notFound
    commit user.uuid (.deleteMembership target) lastOwnerOr
  else
    throw .unauthorized

end

inductive OrgRequest where
  | createOrg (user : PlatformUser) (uuid : Uuid)
  | deleteOrg (user : PlatformUser) (orgId : Uuid)
  | createInvite (user : PlatformUser) (orgId : Uuid) (email : Text) (role : OrgRole) (code : Uuid)
      (now : Int)
  | deleteInvite (user : PlatformUser) (orgId code : Uuid)
  | acceptInvite (user : PlatformUser) (code : Uuid) (checked marked : Int)
  | updateMembership (user : PlatformUser) (orgId userId : Uuid) (role : OrgRole)
  | deleteMembership (user : PlatformUser) (orgId userId : Uuid)

def handleOrg : OrgRequest → OrgAction Unit
  | .createOrg user uuid => createOrg user uuid
  | .deleteOrg user orgId => deleteOrg user orgId
  | .createInvite user orgId email role code now => createInvite user orgId email role code now
  | .deleteInvite user orgId code => deleteInvite user orgId code
  | .acceptInvite user code checked marked => acceptInvite user code checked marked
  | .updateMembership user orgId userId role => updateMembership user orgId userId role
  | .deleteMembership user orgId userId => deleteMembership user orgId userId

def organizations : System OrgWorld OrgRequest (Except ApiError Unit) where
  handle request := (handleOrg request).run
  admits _ _ := True
  interferes _ _ := False

def Committed (w w' : OrgWorld) : Prop :=
  ∃ actor change, change.apply w.db = .ok w'.db ∧ w'.log = w.log ++ [⟨actor,change,w.db,w'.db⟩]

@[simp] theorem within_orgQuery {α : Type} {R : OrgWorld → OrgWorld → Prop} {view : OrgTables → α} :
    Within R (orgQuery view) :=
  within_inspect

@[simp] theorem within_commit {actor : Uuid} {change : Change} {onError : OrgDBError → ApiError} :
    Within Committed (commit actor change onError) := by
  refine within_attempt fun w _ w' done => ?_
  split at done
  · rename_i db applied
    cases done
    exact ⟨actor,change,applied,rfl⟩
  · cases done

theorem organizations_confined : organizations.Confined Committed where
  handled request := by
    change Within Committed (handleOrg request)
    cases request with
    | createOrg user uuid => simp [handleOrg, createOrg]
    | deleteOrg user orgId => simp [handleOrg, deleteOrg, Option.forall]
    | createInvite user orgId email role code now => simp [handleOrg, createInvite, Option.forall]
    | deleteInvite user orgId code => simp [handleOrg, deleteInvite, Option.forall]
    | acceptInvite user code checked marked => simp [handleOrg, acceptInvite, Option.forall]
    | updateMembership user orgId userId role => simp [handleOrg, updateMembership, Option.forall]
    | deleteMembership user orgId userId => simp [handleOrg, deleteMembership, Option.forall]
  interference _ _ h := h.elim

end OpenSecret

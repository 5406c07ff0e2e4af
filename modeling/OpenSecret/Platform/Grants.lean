import OpenSecret.Foundation.Traces
import OpenSecret.Platform.Ownership

/-!
Who makes whom an owner, when the requests are served one after the other. A
role change is made by an owner, but an invite may be made by an administrator,
and it may invite to any role.
-/
namespace OpenSecret
open Framing Interleaving Traces List

def serveOrg (w : OrgWorld) (request : OrgRequest) :
    OrgWorld := ((handleOrg request).run.finish w).2

def serveOrgs (w : OrgWorld) (requests : List OrgRequest) : OrgWorld := requests.foldl serveOrg w

/-- What the routes have checked of a transaction when it commits. -/
def Change.Authorized (db : OrgTables) (actor : Uuid) : Change → Prop
  | .createOrg _ ownerId => ownerId = actor
  | .createInvite new =>
    ∃ membership, db.getByPlatformUserAndOrg actor new.orgId = some membership ∧
    (membership.role = .owner ∨ membership.role = .admin)
  | .acceptInvite invite new _ => invite ∈ db.invites ∧ new = ⟨actor,invite.orgId,invite.role⟩
  | .updateRole target _ => target ∈ db.memberships ∧ ∃ membership,
    db.getByPlatformUserAndOrg actor target.orgId = some membership ∧ membership.role = .owner
  | _ => True

/-- Nothing happens, or one authorized transaction commits. -/
def Serves (w w' : OrgWorld) : Prop :=
  w' = w ∨ ∃ actor change, change.Authorized w.db actor ∧ change.apply w.db = .ok w'.db ∧
    w'.log = w.log ++ [⟨actor,change,w.db,w'.db⟩]

variable {w : OrgWorld} {α : Type}

theorem serves_commit {actor : Uuid} {change : Change} {onError : OrgDBError → ApiError}
    (authorized : change.Authorized w.db actor) :
    Serves w ((commit actor change onError).run.finish w).2 := by
  cases applied : change.apply w.db with
  | ok db =>
    refine .inr ⟨actor,change,authorized,?_⟩
    simp [commit, attempt, transact, Prog.finish, ExceptT.run, ExceptT.mk, applied]
  | error e =>
    refine .inl ?_
    simp [commit, attempt, transact, Prog.finish, ExceptT.run, ExceptT.mk, applied]

theorem serves_throw {e : ApiError} :
    Serves w ((throw e : OrgAction α).run.finish w).2 :=
  .inl rfl

theorem serves_withMembership {orgId user : Uuid} {missing : ApiError}
    {rest : Org → OrgMembership → OrgAction α}
    (h : ∀ org membership, w.db.getByPlatformUserAndOrg user org.id = some membership →
      Serves w ((rest org membership).run.finish w).2) :
    Serves w ((do
      let some org ← orgQuery (·.getOrgByUuid orgId) | throw missing
      let some membership ← orgQuery (·.getByPlatformUserAndOrg user org.id) | throw .unauthorized
      rest org membership : OrgAction α).run.finish w).2 := by
  simp only [orgQuery, finish_inspect_bind]
  split
  · simp only [finish_inspect_bind]
    split
    · rename_i found
      exact h _ _ found
    · exact serves_throw
  · exact serves_throw

theorem getByPlatformUserAndOrg_some {db : OrgTables} {user : Uuid} {orgId : Nat}
    {membership : OrgMembership} (h : db.getByPlatformUserAndOrg user orgId = some membership) :
    membership ∈ db.memberships ∧ membership.platformUserId = user ∧ membership.orgId = orgId := by
  have fits := find?_some h
  simp only [Bool.and_eq_true, decide_eq_true_eq] at fits
  exact ⟨mem_of_find?_eq_some h,fits⟩

theorem serveOrg_serves (w : OrgWorld) (request : OrgRequest) : Serves w (serveOrg w request) := by
  unfold serveOrg
  cases request with
  | createOrg user uuid => exact serves_commit rfl
  | deleteOrg user orgId =>
    refine serves_withMembership fun org membership found => ?_
    split
    · exact serves_commit trivial
    · exact serves_throw
  | createInvite user orgId email role code now =>
    refine serves_withMembership fun org membership found => ?_
    split
    · rename_i allowed
      exact serves_commit ⟨membership,found,allowed⟩
    · exact serves_throw
  | deleteInvite user orgId code =>
    refine serves_withMembership fun org membership found => ?_
    split
    · simp only [orgQuery, finish_inspect_bind]
      split
      · split
        · exact serves_commit trivial
        · exact serves_throw
      · exact serves_throw
    · exact serves_throw
  | acceptInvite user code checked marked =>
    simp only [handleOrg, acceptInvite, orgQuery, finish_inspect_bind]
    split
    · rename_i invite found
      split
      · exact serves_throw
      · split
        · exact serves_throw
        · split
          · exact serves_throw
          · exact serves_commit ⟨mem_of_find?_eq_some found,rfl⟩
    · exact serves_throw
  | updateMembership user orgId userId role =>
    refine serves_withMembership fun org membership found => ?_
    split
    · rename_i owner
      simp only [orgQuery, finish_inspect_bind]
      split
      · rename_i target read
        obtain ⟨inRows,_,sameOrg⟩ := getByPlatformUserAndOrg_some read
        have authorized : (Change.updateRole target role).Authorized w.db user.uuid :=
          ⟨inRows,membership,by rw [sameOrg]; exact found,owner⟩
        have committed : Serves w
            ((commit user.uuid (.updateRole target role) lastOwnerOr).run.finish w).2 :=
          serves_commit authorized
        rw [finish_run_bind]
        generalize (commit user.uuid (.updateRole target role) lastOwnerOr).run.finish w = outcome
          at committed ⊢
        rcases outcome with ⟨_ | _,w'⟩
        · exact committed
        · dsimp only
          simp only [finish_inspect_bind]
          split <;> exact committed
      · exact serves_throw
    · exact serves_throw
  | deleteMembership user orgId userId =>
    refine serves_withMembership fun org membership found => ?_
    split
    · simp only [orgQuery, finish_inspect_bind]
      split
      · exact serves_commit trivial
      · exact serves_throw
    · exact serves_throw

def OrgTables.IsOwner (db : OrgTables) (user : Uuid) (orgId : Nat) : Prop :=
  ∃ m ∈ db.memberships, m.platformUserId = user ∧ m.orgId = orgId ∧ m.role = .owner

def Commit.Makes (entry : Commit) (user : Uuid) (orgId : Nat) : Prop :=
  ¬ entry.before.IsOwner user orgId ∧ entry.after.IsOwner user orgId

def Offers (log : List Commit) (j : Nat) (invite : InviteCode) (grant : Commit) : Prop :=
  log[j]? = some grant ∧ ∃ offer, grant.change = .createInvite offer ∧
    grant.before.inviteSeq = invite.id ∧ offer.orgId = invite.orgId ∧ offer.role = invite.role

/-- The user created the organization, or an owner raised the user's role, or
    the user accepted an invite that an owner had created. -/
inductive Granted (log : List Commit) (i : Nat) (entry : Commit)
    (user : Uuid) (orgId : Nat) : Prop where
  | created {uuid : Uuid} (change : entry.change = .createOrg uuid user)
      (org : orgId = entry.before.orgSeq)
  | raised {target : OrgMembership} (change : entry.change = .updateRole target .owner)
      (granter : entry.before.IsOwner entry.actor orgId)
  | invited {invite : InviteCode} {new : NewOrgMembership} {now : Int} {j : Nat} {grant : Commit}
      (change : entry.change = .acceptInvite invite new now) (org : invite.orgId = orgId)
      (owner : invite.role = .owner) (earlier : j < i) (offers : Offers log j invite grant)
      (granter : grant.before.IsOwner grant.actor orgId)

section
variable {db db' : OrgTables}

variable {change : Change}

theorem isOwner_after (sound : db.Sound) {actor : Uuid}
    (authorized : change.Authorized db actor) (applied : change.apply db = .ok db') {user : Uuid}
    {orgId : Nat} (owner : db'.IsOwner user orgId) : db.IsOwner user orgId ∨
      (∃ uuid, change = .createOrg uuid user ∧ orgId = db.orgSeq) ∨
      (∃ target, change = .updateRole target .owner ∧ db.IsOwner actor orgId) ∨
      ∃ invite new now, change = .acceptInvite invite new now ∧ invite.orgId = orgId ∧
        invite.role = .owner := by
  obtain ⟨m,mem,rfl,rfl,role⟩ := owner
  cases change with
  | createOrg uuid ownerId =>
    rw [createOrgWithOwner_ok applied] at mem
    rcases mem_snoc.mp mem with old | rfl
    · exact .inl ⟨m,old,rfl,rfl,role⟩
    · exact .inr (.inl ⟨uuid,rfl,rfl⟩)
  | deleteOrg org =>
    cases applied
    exact .inl ⟨m,(mem_filter.mp mem).1,rfl,rfl,role⟩
  | createInvite new =>
    rw [createInviteCode_ok applied] at mem
    exact .inl ⟨m,mem,rfl,rfl,role⟩
  | deleteInvite invite =>
    cases applied
    exact .inl ⟨m,mem,rfl,rfl,role⟩
  | acceptInvite invite new now =>
    obtain ⟨_,_,rfl⟩ := acceptInviteTransaction_ok applied
    obtain ⟨_,rfl⟩ := authorized
    rcases mem_snoc.mp mem with old | rfl
    · exact .inl ⟨m,old,rfl,rfl,role⟩
    · exact .inr (.inr (.inr ⟨invite,_,now,rfl,rfl,role⟩))
  | updateRole target newRole =>
    rw [(updateRoleWithOwnerCheck_ok applied).1] at mem
    obtain ⟨inRows,membership,found,owns⟩ := authorized
    obtain ⟨old,inOld,rfl⟩ := mem_map.mp mem
    by_cases hit : old.id = target.id
    · obtain rfl := inj_on_of_nodup_map sound.unique inOld inRows hit
      rw [if_pos rfl] at role ⊢
      obtain ⟨inGranter,sameUser,sameOrg⟩ := getByPlatformUserAndOrg_some found
      have raised : newRole = .owner := role
      rw [raised]
      exact .inr (.inr (.inl ⟨old,rfl,membership,inGranter,sameUser,sameOrg,owns⟩))
    · rw [if_neg hit] at role ⊢
      exact .inl ⟨old,inOld,rfl,rfl,role⟩
  | deleteMembership membership =>
    rw [(deleteWithOwnerCheck_ok applied).1] at mem
    exact .inl ⟨m,(mem_filter.mp mem).1,rfl,rfl,role⟩

/-- Rows of the invite table keep what they offer, and a new one takes the next number. -/
structure InvitesAfter (db : OrgTables) (change : Change) (db' : OrgTables) : Prop where
  seq : db.inviteSeq ≤ db'.inviteSeq
  numbered : ∀ offer, change = .createInvite offer → db.inviteSeq < db'.inviteSeq
  rows : ∀ row ∈ db'.invites,
    (∃ old ∈ db.invites, old.id = row.id ∧ old.orgId = row.orgId ∧ old.role = row.role) ∨
      ∃ offer, change = .createInvite offer ∧ db.inviteSeq = row.id ∧ offer.orgId = row.orgId ∧
        offer.role = row.role

theorem invites_after (applied : change.apply db = .ok db') : InvitesAfter db change db' := by
  cases change with
  | createOrg uuid ownerId =>
    rw [createOrgWithOwner_ok applied]
    exact ⟨le_rfl,nofun,fun row mem => .inl ⟨row,mem,rfl,rfl,rfl⟩⟩
  | deleteOrg org =>
    cases applied
    exact ⟨le_rfl,nofun,fun row mem => .inl ⟨row,(mem_filter.mp mem).1,rfl,rfl,rfl⟩⟩
  | createInvite offer =>
    rw [createInviteCode_ok applied]
    refine ⟨Nat.le_succ _,fun _ _ => Nat.lt_succ_self _,fun row mem => ?_⟩
    rcases mem_snoc.mp mem with old | rfl
    · exact .inl ⟨row,old,rfl,rfl,rfl⟩
    · exact .inr ⟨offer,rfl,rfl,rfl,rfl⟩
  | deleteInvite invite =>
    cases applied
    exact ⟨le_rfl,nofun,fun row mem => .inl ⟨row,(mem_filter.mp mem).1,rfl,rfl,rfl⟩⟩
  | acceptInvite invite new now =>
    obtain ⟨_,_,rfl⟩ := acceptInviteTransaction_ok applied
    refine ⟨le_rfl,nofun,fun row mem => ?_⟩
    obtain ⟨old,inRows,rfl⟩ := mem_map.mp mem
    refine .inl ⟨old,inRows,?_⟩
    split <;> exact ⟨rfl,rfl,rfl⟩
  | updateRole target role =>
    rw [(updateRoleWithOwnerCheck_ok applied).1]
    exact ⟨le_rfl,nofun,fun row mem => .inl ⟨row,mem,rfl,rfl,rfl⟩⟩
  | deleteMembership membership =>
    rw [(deleteWithOwnerCheck_ok applied).1]
    exact ⟨le_rfl,nofun,fun row mem => .inl ⟨row,mem,rfl,rfl,rfl⟩⟩

end

/-- What the log says of the tables: every invite has one transaction that
    created it, and it came before its acceptance. -/
structure Traced (w : OrgWorld) : Prop where
  tables : w.db.Sound
  entries : ∀ entry ∈ w.log, entry.before.Sound ∧
    entry.change.Authorized entry.before entry.actor ∧
      entry.change.apply entry.before = .ok entry.after
  offered : ∀ invite ∈ w.db.invites, ∃ j grant, Offers w.log j invite grant
  accepted : ∀ {i : Nat} {entry invite new now}, w.log[i]? = some entry →
    entry.change = .acceptInvite invite new now → ∃ j < i, ∃ grant, Offers w.log j invite grant
  numbered : ∀ {j : Nat} {grant offer}, w.log[j]? = some grant →
    grant.change = .createInvite offer →
    grant.before.inviteSeq < w.db.inviteSeq
  distinct : ∀ {j k : Nat} {grant grant' offer offer'}, w.log[j]? = some grant →
    w.log[k]? = some grant' → grant.change = .createInvite offer →
    grant'.change = .createInvite offer' → grant.before.inviteSeq = grant'.before.inviteSeq → j = k

theorem serves_traced {w' : OrgWorld} (serves : Serves w w') (traced : Traced w) : Traced w' := by
  rcases serves with rfl | ⟨actor,change,authorized,applied,log⟩
  · exact traced
  have grown : w.log <+: w'.log := by
    rw [log]
    exact prefix_append _ _
  have keepsOffer : ∀ {j invite grant}, Offers w.log j invite grant →
    Offers w'.log j invite grant :=
    fun offers => ⟨getElem?_of_initial grown offers.1,offers.2⟩
  have invites := invites_after applied
  refine ⟨(apply_keeps traced.tables applied).1,?_,?_,?_,?_,?_⟩
  · intro entry mem
    rw [log] at mem
    rcases mem_snoc.mp mem with old | rfl
    · exact traced.entries entry old
    · exact ⟨traced.tables,authorized,applied⟩
  · intro invite mem
    rcases invites.rows invite mem with ⟨old,inRows,id,org,role⟩ | ⟨offer,rfl,id,org,role⟩
    · obtain ⟨j,grant,here,offer,created,number,offerOrg,offerRole⟩ := traced.offered old inRows
      exact ⟨j,grant,keepsOffer ⟨here,offer,created,number.trans id,offerOrg.trans org,
        offerRole.trans role⟩⟩
    · refine ⟨w.log.length,⟨actor,.createInvite offer,w.db,w'.db⟩,?_,offer,rfl,id,org,role⟩
      rw [log, getElem?_concat_length]
  · intro i entry invite new now here accepts
    rw [log] at here
    rcases of_getElem?_concat here with old | ⟨rfl,rfl⟩
    · obtain ⟨j,earlier,grant,offers⟩ := traced.accepted old accepts
      exact ⟨j,earlier,grant,keepsOffer offers⟩
    · obtain rfl : change = _ := accepts
      obtain ⟨j,grant,offers⟩ := traced.offered invite authorized.1
      exact ⟨j,(List.getElem?_eq_some_iff.mp offers.1).1,grant,keepsOffer offers⟩
  · intro j grant offer here creates
    rw [log] at here
    rcases of_getElem?_concat here with old | ⟨_,rfl⟩
    · exact lt_of_lt_of_le (traced.numbered old creates) invites.seq
    · exact invites.numbered offer creates
  · intro j k grant grant' offer offer' here there creates creates' same
    rw [log] at here there
    rcases of_getElem?_concat here with old | ⟨rfl,rfl⟩
    · rcases of_getElem?_concat there with old' | ⟨rfl,rfl⟩
      · exact traced.distinct old old' creates creates' same
      · exact absurd same (ne_of_lt (traced.numbered old creates))
    · rcases of_getElem?_concat there with old' | ⟨rfl,rfl⟩
      · exact absurd same.symm (ne_of_lt (traced.numbered old' creates'))
      · rfl

theorem serveOrgs_traced (traced : Traced w) (requests : List OrgRequest) :
    Traced (serveOrgs w requests) := by
  induction requests generalizing w with
  | nil => exact traced
  | cons request rest ih => exact ih (serves_traced (serveOrg_serves w request) traced)

def GrantedByOwners (log : List Commit) : Prop :=
  ∀ (i : Nat) entry, log[i]? = some entry → ∀ user orgId, entry.Makes user orgId →
    Granted log i entry user orgId

def OffersByOwners (log : List Commit) : Prop :=
  ∀ (i j : Nat) entry grant invite new now, log[i]? = some entry →
    entry.change = .acceptInvite invite new now → invite.role = .owner → j < i →
    Offers log j invite grant → grant.before.IsOwner grant.actor invite.orgId

/-- Over any sequence of requests, ownership comes from owners only, exactly
    when no accepted invite to ownership was the work of an administrator. -/
theorem ownership_granted_by_owners_iff {start : OrgTables} (sound : start.Sound)
    (noInvites : start.invites = []) (requests : List OrgRequest) :
    GrantedByOwners (serveOrgs ⟨start,[]⟩ requests).log ↔
      OffersByOwners (serveOrgs ⟨start,[]⟩ requests).log := by
  have traced : Traced (serveOrgs ⟨start,[]⟩ requests) := by
    refine serveOrgs_traced ⟨sound,?_,?_,?_,?_,?_⟩ requests <;> simp [noInvites]
  generalize (serveOrgs ⟨start,[]⟩ requests) = w at traced ⊢
  constructor
  · intro granted i j entry grant invite new now here accepts owner earlier offers
    obtain ⟨_,authorized,applied⟩ := traced.entries entry (mem_of_getElem? here)
    rw [accepts] at authorized applied
    obtain ⟨fresh,_,after⟩ := acceptInviteTransaction_ok applied
    obtain ⟨_,rfl⟩ := authorized
    have makes : entry.Makes entry.actor invite.orgId := by
      refine ⟨?_,⟨entry.before.membershipSeq,entry.actor,invite.orgId,invite.role⟩,?_,rfl,rfl,owner⟩
      · rintro ⟨m,mem,sameUser,sameOrg,_⟩
        exact fresh m mem sameUser sameOrg
      · rw [after]
        exact mem_append_right _ (mem_singleton_self _)
    cases granted i entry here _ _ makes with
    | created change _ => rw [accepts] at change; cases change
    | raised change _ => rw [accepts] at change; cases change
    | @invited invite' _ _ k grant' change _ _ _ offers' granter =>
      rw [accepts] at change
      cases change
      -- one transaction created the invite, so the two granters are one
      obtain ⟨atJ,offer,creates,number,_⟩ := offers
      obtain ⟨atK,offer',creates',number',_⟩ := offers'
      obtain rfl := traced.distinct atJ atK creates creates' (number.trans number'.symm)
      obtain rfl := Option.some.inj (atJ.symm.trans atK)
      exact granter
  · intro offers i entry here user orgId makes
    obtain ⟨tables,authorized,applied⟩ := traced.entries entry (mem_of_getElem? here)
    rcases isOwner_after tables authorized applied makes.2 with before | ⟨uuid,change,org⟩ |
      ⟨target,change,granter⟩ | ⟨invite,new,now,change,org,owner⟩
    · exact absurd before makes.1
    · exact .created change org
    · exact .raised change granter
    · obtain ⟨j,earlier,grant,offered⟩ := traced.accepted here change
      have granter := offers i j entry grant invite new now here change owner earlier offered
      exact .invited change org owner earlier offered (org ▸ granter)

/-- Bob, an administrator, invites himself under a second account as an owner. -/
def bobAgain : PlatformUser := ⟨3,sampleUuid 3,"bob@z.y",none⟩

def selfPromotion : List OrgRequest :=
  [.createInvite bob (sampleUuid 9) bobAgain.email .owner (sampleUuid 5) 0,
    .acceptInvite bobAgain (sampleUuid 5) 10 10]

def ownerInvite : InviteCode := ⟨0,sampleUuid 5,0,bobAgain.email,.owner,false,24 * 3600⟩

def afterOffer : OrgTables := { sampleOrg with invites := [ownerInvite], inviteSeq := 1 }

def afterAcceptance : OrgTables :=
  ⟨sampleOrg.orgs,sampleOrg.memberships ++ [⟨2,bobAgain.uuid,0,.owner⟩],
    [{ ownerInvite with used := true }],1,3,1⟩

theorem selfPromotion_log : (serveOrgs ⟨sampleOrg,[]⟩ selfPromotion).log =
    [⟨bob.uuid,.createInvite ⟨sampleUuid 5,0,bobAgain.email,.owner,24 * 3600⟩,sampleOrg,afterOffer⟩,
      ⟨bobAgain.uuid,.acceptInvite ownerInvite ⟨bobAgain.uuid,0,.owner⟩ 10,
      afterOffer,afterAcceptance⟩] :=
  rfl

theorem administrator_grants_ownership :
    ¬ GrantedByOwners (serveOrgs ⟨sampleOrg,[]⟩ selfPromotion).log := by
  intro granted
  rw [selfPromotion_log] at granted
  have makes : (⟨bobAgain.uuid,.acceptInvite ownerInvite ⟨bobAgain.uuid,0,.owner⟩ 10,afterOffer,
      afterAcceptance⟩ : Commit).Makes bobAgain.uuid 0 := by
    unfold Commit.Makes OrgTables.IsOwner
    decide +kernel
  cases granted 1 _ rfl _ _ makes with
  | created change _ => cases change
  | raised change _ => cases change
  | @invited _ _ _ j grant _ _ _ earlier offers granter =>
    obtain rfl : j = 0 := by omega
    cases offers.1
    have administrator : ¬ sampleOrg.IsOwner bob.uuid 0 := by
      unfold OrgTables.IsOwner
      decide +kernel
    exact administrator granter

def properPromotion : List OrgRequest :=
  [.createInvite alice (sampleUuid 9) bobAgain.email .owner (sampleUuid 5) 0,
    .acceptInvite bobAgain (sampleUuid 5) 10 10]

theorem properPromotion_log : (serveOrgs ⟨sampleOrg,[]⟩ properPromotion).log =
    [⟨alice.uuid,.createInvite ⟨sampleUuid 5,0,bobAgain.email,.owner,24 * 3600⟩,
      sampleOrg,afterOffer⟩,
      ⟨bobAgain.uuid,.acceptInvite ownerInvite ⟨bobAgain.uuid,0,.owner⟩ 10,
      afterOffer,afterAcceptance⟩] :=
  rfl

theorem owner_grants_ownership :
    (serveOrgs ⟨sampleOrg,[]⟩ properPromotion).db.IsOwner bobAgain.uuid 0 ∧
      GrantedByOwners (serveOrgs ⟨sampleOrg,[]⟩ properPromotion).log := by
  refine ⟨by unfold OrgTables.IsOwner; decide +kernel,?_⟩
  refine (ownership_granted_by_owners_iff ⟨by decide,by decide,by decide⟩
    rfl properPromotion).mpr ?_
  intro i j entry grant invite new now here accepts owner earlier offers
  rw [properPromotion_log] at here offers
  have owns : sampleOrg.IsOwner alice.uuid 0 := by
    unfold OrgTables.IsOwner
    decide +kernel
  obtain rfl : i = 1 := by
    rcases i with _ | _ | i
    · cases here
      cases accepts
    · rfl
    · cases here
  cases here
  cases accepts
  obtain rfl : j = 0 := by omega
  cases offers.1
  exact owns

end OpenSecret

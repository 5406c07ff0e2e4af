import Mathlib.Data.List.Nodup
import OpenSecret.Platform.Organizations

/-!
Which runs keep an owner in every organization. The owner check of a role
change or a removal goes by the role that was read before the transaction; the
invariant is lost exactly where that role was outdated.
-/
namespace OpenSecret
open Framing Interleaving List

/-- Serial ids, and references to organizations that exist. -/
structure OrgTables.Sound (db : OrgTables) : Prop where
  unique : (db.memberships.map OrgMembership.id).Nodup
  below : ∀ m ∈ db.memberships, m.id < db.membershipSeq
  placed : ∀ m ∈ db.memberships, ∃ org ∈ db.orgs, org.id = m.orgId

def OrgTables.AllOwned (db : OrgTables) : Prop := ∀ org ∈ db.orgs, db.owners org.id ≠ []

def OrgTables.SoleOwner (db : OrgTables) (membership : OrgMembership) : Prop :=
  ∃ m, db.owners membership.orgId = [m] ∧ m.id = membership.id

/-- The only owner loses its role or its membership, and the owner check did
    not run because the role read before the transaction was another one. -/
def Change.Unguarded (db : OrgTables) : Change → Prop
  | .updateRole membership role =>
    membership.role ≠ .owner ∧ role ≠ .owner ∧ db.SoleOwner membership
  | .deleteMembership membership => membership.role ≠ .owner ∧ db.SoleOwner membership
  | _ => False

/-- The row, if it is still there, is in the organization it was read in. -/
def OrgMembership.Known (membership : OrgMembership) (db : OrgTables) : Prop :=
  membership.id < db.membershipSeq ∧
    ∀ m ∈ db.memberships, m.id = membership.id → m.orgId = membership.orgId

def Change.Known (db : OrgTables) : Change → Prop
  | .updateRole membership _ => membership.Known db
  | .deleteMembership membership => membership.Known db
  | _ => True

section
variable {db db' : OrgTables}

variable {orgId : Nat} {role : OrgRole} {membership : OrgMembership} {new : NewOrgMembership}
  {invite : InviteCode} {now : Int} {change : Change}

theorem mem_owners {m : OrgMembership} :
    m ∈ db.owners orgId ↔ m ∈ db.memberships ∧ m.orgId = orgId ∧ m.role = .owner := by
  simp [OrgTables.owners]

theorem owners_setRole (lower : role ≠ .owner) (id orgId : Nat) :
    (db.setRole id role).owners orgId = (db.owners orgId).filter (·.id ≠ id) := by
  simp only [OrgTables.owners, OrgTables.setRole]
  induction db.memberships with
  | nil => rfl
  | cons m rest ih =>
    by_cases hit : m.id = id <;> by_cases fits : m.orgId = orgId ∧ m.role = .owner <;>
      simp_all

theorem owners_setRole_owner {id : Nat} (owned : db.owners orgId ≠ []) :
    (db.setRole id .owner).owners orgId ≠ [] := by
  obtain ⟨m,mem⟩ := exists_mem_of_ne_nil _ owned
  obtain ⟨inRows,placed,owner⟩ := mem_owners.mp mem
  refine ne_nil_of_mem (mem_owners.mpr ⟨mem_map_of_mem inRows,?_⟩)
  split
  · exact ⟨placed,rfl⟩
  · exact ⟨placed,owner⟩

theorem owners_removeMembership (id orgId : Nat) :
    (db.removeMembership id).owners orgId = (db.owners orgId).filter (·.id ≠ id) := by
  simp only [OrgTables.owners, OrgTables.removeMembership, filter_filter, Bool.and_comm]

theorem filter_owners_eq_nil (sound : db.Sound) (known : membership.Known db)
    (owned : db.owners orgId ≠ []) :
    (db.owners orgId).filter (·.id ≠ membership.id) = [] ↔
      orgId = membership.orgId ∧ db.SoleOwner membership := by
  constructor
  · intro none
    have all : ∀ m ∈ db.owners orgId, m.id = membership.id := by
      simpa [filter_eq_nil_iff] using none
    have distinct : ((db.owners orgId).map OrgMembership.id).Nodup :=
      (filter_sublist.map _).nodup sound.unique
    obtain ⟨m,only⟩ : ∃ m, db.owners orgId = [m] := by
      rcases list : db.owners orgId with _ | ⟨m,_ | ⟨other,rest⟩⟩
      · exact absurd list owned
      · exact ⟨m,rfl⟩
      · rw [list] at all distinct
        have same : m.id = other.id := (all m (by simp)).trans (all other (by simp)).symm
        simp [same] at distinct
    have mem : m ∈ db.owners orgId := by simp [only]
    obtain ⟨inRows,placed,_⟩ := mem_owners.mp mem
    obtain rfl : orgId = membership.orgId := placed.symm.trans (known.2 m inRows (all m mem))
    exact ⟨rfl,m,only,all m mem⟩
  · rintro ⟨rfl,m,only,same⟩
    simp [only, same]

theorem insertMembership_ok (h : db.insertMembership new = .ok db') :
    (∀ m ∈ db.memberships, m.platformUserId = new.platformUserId → m.orgId ≠ new.orgId) ∧
    (∃ org ∈ db.orgs, org.id = new.orgId) ∧ db' = { db with
      memberships := db.memberships ++ [⟨db.membershipSeq,new.platformUserId,new.orgId,new.role⟩]
      membershipSeq := db.membershipSeq + 1 } := by
  unfold OrgTables.insertMembership at h
  split at h
  · cases h
  · rename_i free
    cases h
    simp only [Bool.or_eq_true, any_eq_true, Bool.and_eq_true, decide_eq_true_eq,
      Bool.not_eq_true', not_or, not_exists, not_and, Bool.not_eq_false] at free
    exact ⟨fun m mem same => free.1 m mem same,free.2,rfl⟩

theorem createOrgWithOwner_ok {uuid ownerId : Uuid}
    (h : db.createOrgWithOwner uuid ownerId = .ok db') :
    db' = { db with
      orgs := db.orgs ++ [⟨db.orgSeq,uuid⟩]
      orgSeq := db.orgSeq + 1
      memberships := db.memberships ++ [⟨db.membershipSeq,ownerId,db.orgSeq,.owner⟩]
      membershipSeq := db.membershipSeq + 1 } := by
  unfold OrgTables.createOrgWithOwner at h
  split at h
  · cases h
  · exact (insertMembership_ok h).2.2

theorem createInviteCode_ok {new : NewInviteCode} (h : db.createInviteCode new = .ok db') :
    db' = { db with
      invites :=
        db.invites ++ [⟨db.inviteSeq,new.code,new.orgId,new.email,new.role,false,new.expiresAt⟩]
      inviteSeq := db.inviteSeq + 1 } := by
  unfold OrgTables.createInviteCode at h
  split at h
  · cases h
  · cases h
    rfl

theorem markAsUsed_ok (h : db.markAsUsed invite now = .ok db') :
    db' = { db with invites := db.invites.map fun i =>
      if i.id = invite.id then { i with used := true } else i } := by
  unfold OrgTables.markAsUsed at h
  split at h
  · cases h
  · split at h
    · cases h
    · split at h
      · cases h
        rfl
      · cases h

theorem acceptInviteTransaction_ok (h : db.acceptInviteTransaction invite new now = .ok db') :
    (∀ m ∈ db.memberships, m.platformUserId = new.platformUserId → m.orgId ≠ new.orgId) ∧
    (∃ org ∈ db.orgs, org.id = new.orgId) ∧ db' = { db with
      memberships := db.memberships ++ [⟨db.membershipSeq,new.platformUserId,new.orgId,new.role⟩]
      membershipSeq := db.membershipSeq + 1
      invites := db.invites.map fun i => if i.id = invite.id
        then { i with used := true } else i } := by
  obtain ⟨joined,inserted,marked⟩ := bind_eq_ok.mp h
  obtain ⟨fresh,placed,rfl⟩ := insertMembership_ok inserted
  exact ⟨fresh,placed,markAsUsed_ok marked⟩

theorem updateRoleWithOwnerCheck_ok (h : db.updateRoleWithOwnerCheck membership role = .ok db') :
    db' = db.setRole membership.id role ∧ (membership.role = .owner → role ≠ .owner →
      1 < (db.owners membership.orgId).length) := by
  unfold OrgTables.updateRoleWithOwnerCheck at h
  split at h
  · cases h
  · rename_i passed
    cases h
    refine ⟨rfl,fun wasOwner lower => ?_⟩
    simpa [wasOwner, lower] using passed

theorem deleteWithOwnerCheck_ok (h : db.deleteWithOwnerCheck membership = .ok db') :
    db' = db.removeMembership membership.id ∧ (membership.role = .owner →
      1 < (db.owners membership.orgId).length) := by
  unfold OrgTables.deleteWithOwnerCheck at h
  split at h
  · cases h
  · rename_i passed
    cases h
    refine ⟨rfl,fun wasOwner => ?_⟩
    simpa [wasOwner] using passed

/-- Rows keep their organization, and new rows have new ids. -/
def OrgTables.Continues (db db' : OrgTables) : Prop :=
  db.membershipSeq ≤ db'.membershipSeq ∧ ∀ m' ∈ db'.memberships, m'.id < db.membershipSeq →
    ∃ m ∈ db.memberships, m.id = m'.id ∧ m.orgId = m'.orgId

theorem continues_trans {db'' : OrgTables} (first : db.Continues db')
    (second : db'.Continues db'') :
    db.Continues db'' := by
  refine ⟨le_trans first.1 second.1,fun m'' mem old => ?_⟩
  obtain ⟨m',inRows',id',org'⟩ := second.2 m'' mem (lt_of_lt_of_le old first.1)
  obtain ⟨m,inRows,id,org⟩ := first.2 m' inRows' (id' ▸ old)
  exact ⟨m,inRows,id.trans id',org.trans org'⟩

theorem known_continues (known : membership.Known db) (continues : db.Continues db') :
    membership.Known db' := by
  refine ⟨lt_of_lt_of_le known.1 continues.1,fun m' mem same => ?_⟩
  obtain ⟨m,inRows,id,org⟩ := continues.2 m' mem (same ▸ known.1)
  exact org.symm.trans (known.2 m inRows (id.trans same))

theorem joined_keeps (sound : db.Sound) {user : Uuid}
    (rows : db'.memberships = db.memberships ++ [⟨db.membershipSeq,user,orgId,role⟩])
    (seq : db'.membershipSeq = db.membershipSeq + 1) (orgs : ∀ org ∈ db.orgs, org ∈ db'.orgs)
    (placed : ∃ org ∈ db'.orgs, org.id = orgId) : db'.Sound ∧ db.Continues db' := by
  refine ⟨⟨?_,?_,?_⟩,by omega,?_⟩
  · rw [rows, map_append]
    refine nodup_append.mpr ⟨sound.unique,by simp,fun a old b new => ?_⟩
    obtain ⟨m,mem,rfl⟩ := mem_map.mp old
    rw [mem_singleton.mp new]
    exact ne_of_lt (sound.below m mem)
  · intro m mem
    rw [rows] at mem
    rcases mem_snoc.mp mem with old | rfl
    · have := sound.below m old
      omega
    · rw [seq]
      exact Nat.lt_succ_self _
  · intro m mem
    rw [rows] at mem
    rcases mem_snoc.mp mem with old | rfl
    · obtain ⟨org,inOrgs,same⟩ := sound.placed m old
      exact ⟨org,orgs org inOrgs,same⟩
    · exact placed
  · intro m mem old
    rw [rows] at mem
    rcases mem_snoc.mp mem with here | rfl
    · exact ⟨m,here,rfl,rfl⟩
    · exact absurd old (lt_irrefl _)

theorem filtered_keeps (sound : db.Sound) (rows : db'.memberships.Sublist db.memberships)
    (seq : db'.membershipSeq = db.membershipSeq)
    (placed : ∀ m ∈ db'.memberships, ∃ org ∈ db'.orgs, org.id = m.orgId) :
    db'.Sound ∧ db.Continues db' := by
  refine ⟨⟨(rows.map _).nodup sound.unique,fun m mem => ?_,placed⟩,le_of_eq seq.symm,
    fun m mem _ => ⟨m,rows.mem mem,rfl,rfl⟩⟩
  rw [seq]
  exact sound.below m (rows.mem mem)

theorem setRole_keeps (sound : db.Sound) (id : Nat) (role : OrgRole) :
    (db.setRole id role).Sound ∧ db.Continues (db.setRole id role) := by
  have rows : ∀ m ∈ (db.setRole id role).memberships,
      ∃ old ∈ db.memberships, old.id = m.id ∧ old.orgId = m.orgId := by
    intro m mem
    obtain ⟨old,inRows,rfl⟩ := mem_map.mp mem
    refine ⟨old,inRows,?_⟩
    split <;> exact ⟨rfl,rfl⟩
  have ids : (db.setRole id role).memberships.map OrgMembership.id =
      db.memberships.map OrgMembership.id := by
    simp only [OrgTables.setRole, map_map]
    refine map_congr_left fun m _ => ?_
    simp only [Function.comp_apply]
    split <;> rfl
  refine ⟨⟨by rw [ids]; exact sound.unique,fun m mem => ?_,fun m mem => ?_⟩,le_rfl,
    fun m mem _ => rows m mem⟩
  · obtain ⟨old,inRows,same,_⟩ := rows m mem
    rw [← same]
    exact sound.below old inRows
  · obtain ⟨old,inRows,_,same⟩ := rows m mem
    rw [← same]
    exact sound.placed old inRows

theorem apply_keeps (sound : db.Sound) (applied : change.apply db = .ok db') :
    db'.Sound ∧ db.Continues db' := by
  cases change with
  | createOrg uuid ownerId =>
    rw [createOrgWithOwner_ok applied]
    exact joined_keeps sound rfl rfl (fun org mem => mem_append_left _ mem)
      ⟨_,mem_append_right _ (mem_singleton_self _),rfl⟩
  | deleteOrg org =>
    cases applied
    refine filtered_keeps sound filter_sublist rfl fun m mem => ?_
    obtain ⟨inRows,elsewhere⟩ := mem_filter.mp mem
    obtain ⟨other,inOrgs,same⟩ := sound.placed m inRows
    exact ⟨other,mem_filter.mpr ⟨inOrgs,by rw [same]; exact elsewhere⟩,same⟩
  | createInvite new =>
    rw [createInviteCode_ok applied]
    exact filtered_keeps sound (Sublist.refl _) rfl sound.placed
  | deleteInvite invite =>
    cases applied
    exact filtered_keeps sound (Sublist.refl _) rfl sound.placed
  | acceptInvite invite new now =>
    obtain ⟨_,placed,rfl⟩ := acceptInviteTransaction_ok applied
    exact joined_keeps sound rfl rfl (fun org mem => mem) placed
  | updateRole membership role =>
    rw [(updateRoleWithOwnerCheck_ok applied).1]
    exact setRole_keeps sound _ _
  | deleteMembership membership =>
    rw [(deleteWithOwnerCheck_ok applied).1]
    exact filtered_keeps sound filter_sublist rfl
      fun m mem => sound.placed m (mem_filter.mp mem).1

theorem allOwned_of_owners (owned : db.AllOwned) (orgs : ∀ org ∈ db'.orgs, org ∈ db.orgs)
    (rows : ∀ org ∈ db'.orgs, db.owners org.id ⊆ db'.owners org.id) : db'.AllOwned := by
  intro org mem
  obtain ⟨m,inOwners⟩ := exists_mem_of_ne_nil _ (owned org (orgs org mem))
  exact ne_nil_of_mem (rows org mem inOwners)

theorem owners_subset (rows : ∀ m ∈ db.memberships, m ∈ db'.memberships) (orgId : Nat) :
    db.owners orgId ⊆ db'.owners orgId := by
  intro m mem
  obtain ⟨inRows,fits⟩ := mem_owners.mp mem
  exact mem_owners.mpr ⟨rows m inRows,fits⟩

theorem allOwned_filtered_iff (sound : db.Sound) (owned : db.AllOwned) (known : membership.Known db)
    (owners : ∀ orgId, db'.owners orgId = (db.owners orgId).filter (·.id ≠ membership.id))
    (orgs : db'.orgs = db.orgs) :
    db'.AllOwned ↔ ¬ db.SoleOwner membership := by
  constructor
  · rintro owned' ⟨m,only,same⟩
    obtain ⟨inRows,placed,_⟩ := mem_owners.mp (only ▸ mem_singleton_self m)
    obtain ⟨org,inOrgs,sameOrg⟩ := sound.placed m inRows
    refine owned' org (orgs ▸ inOrgs) ?_
    rw [owners, filter_owners_eq_nil sound known (owned org inOrgs)]
    exact ⟨sameOrg.trans placed,m,only,same⟩
  · intro several org inOrgs none
    rw [owners, filter_owners_eq_nil sound known (owned org (orgs ▸ inOrgs))] at none
    exact several none.2

theorem not_soleOwner (several : 1 < (db.owners membership.orgId).length) :
    ¬ db.SoleOwner membership := by
  rintro ⟨m,only,_⟩
  simp [only] at several

/-- One transaction keeps an owner everywhere unless it is unguarded. -/
theorem apply_allOwned_iff (sound : db.Sound) (owned : db.AllOwned)
    (known : change.Known db) (applied : change.apply db = .ok db') :
    db'.AllOwned ↔ ¬ change.Unguarded db := by
  cases change with
  | createOrg uuid ownerId =>
    rw [createOrgWithOwner_ok applied]
    refine iff_of_true (fun org mem => ?_) id
    rcases mem_snoc.mp mem with old | rfl
    · obtain ⟨m,inOwners⟩ := exists_mem_of_ne_nil _ (owned org old)
      exact ne_nil_of_mem (owners_subset (fun m inRows => mem_append_left _ inRows) _ inOwners)
    · exact ne_nil_of_mem (mem_owners.mpr
        ⟨mem_append_right _ (mem_singleton_self _),rfl,rfl⟩)
  | deleteOrg org =>
    cases applied
    refine iff_of_true (allOwned_of_owners owned (fun _ mem => (mem_filter.mp mem).1)
      fun other mem m inOwners => ?_) id
    obtain ⟨inRows,placed,owner⟩ := mem_owners.mp inOwners
    refine mem_owners.mpr ⟨mem_filter.mpr ⟨inRows,?_⟩,placed,owner⟩
    rw [placed]
    exact (mem_filter.mp mem).2
  | createInvite new =>
    rw [createInviteCode_ok applied]
    exact iff_of_true owned id
  | deleteInvite invite =>
    cases applied
    exact iff_of_true owned id
  | acceptInvite invite new now =>
    obtain ⟨_,_,rfl⟩ := acceptInviteTransaction_ok applied
    exact iff_of_true (allOwned_of_owners owned (fun _ mem => mem)
      fun _ _ => owners_subset (fun m inRows => mem_append_left _ inRows) _) id
  | updateRole membership role =>
    obtain ⟨rfl,guarded⟩ := updateRoleWithOwnerCheck_ok applied
    by_cases raised : role = .owner
    · rw [raised]
      exact iff_of_true (fun org mem => owners_setRole_owner (owned org mem))
        fun unguarded => unguarded.2.1 rfl
    · rw [allOwned_filtered_iff sound owned known (owners_setRole raised _) rfl]
      refine not_congr ⟨fun sole => ⟨fun wasOwner => ?_,raised,sole⟩,fun unguarded => unguarded.2.2⟩
      exact not_soleOwner (guarded wasOwner raised) sole
  | deleteMembership membership =>
    obtain ⟨rfl,guarded⟩ := deleteWithOwnerCheck_ok applied
    rw [allOwned_filtered_iff sound owned known (owners_removeMembership _) rfl]
    refine not_congr ⟨fun sole => ⟨fun wasOwner => ?_,sole⟩,fun unguarded => unguarded.2⟩
    exact not_soleOwner (guarded wasOwner) sole

end

/-- The rows a transaction acts on are known when it commits. -/
structure OrgWorld.Sound (w : OrgWorld) : Prop where
  tables : w.db.Sound
  logged : ∀ entry ∈ w.log, entry.before.Sound ∧ entry.change.Known entry.before ∧
    entry.change.apply entry.before = .ok entry.after

def orgDiscipline : Discipline OrgWorld where
  invariant := OrgWorld.Sound
  frame w w' := w.db.Continues w'.db
  frame_refl _ := ⟨le_rfl,fun m mem _ => ⟨m,mem,rfl,rfl⟩⟩
  frame_trans := continues_trans

section
open Discipline
variable {α : Type} {pre : OrgWorld → Prop}

theorem orgStable_true : orgDiscipline.Stable fun _ => True := fun _ _ _ _ => trivial

theorem known_stable (membership : OrgMembership) :
    orgDiscipline.Stable fun w => membership.Known w.db :=
  fun _ _ continues known => known_continues known continues

variable {user : Uuid} {orgId : Nat} {missing : ApiError} {β : Type} {post : β → OrgWorld → Prop}

theorem known_of_read {db : OrgTables} (sound : db.Sound)
    {membership : OrgMembership} (read : db.getByPlatformUserAndOrg user orgId = some membership) :
    membership.Known db := by
  have mem := mem_of_find?_eq_some read
  refine ⟨sound.below membership mem,fun m inRows same => ?_⟩
  rw [inj_on_of_nodup_map sound.unique inRows mem same]

theorem orgQuery_ensures (view : OrgTables → α) :
    orgDiscipline.Ensures (fun _ => True) (orgQuery view) (fun _ _ => True) :=
  orgDiscipline.ensures_inspect orgStable_true fun _ _ _ => trivial

theorem commit_ensures {actor : Uuid} {change : Change} {onError : OrgDBError → ApiError}
    (stable : orgDiscipline.Stable pre) (known : ∀ w, pre w → change.Known w.db) :
    orgDiscipline.Ensures pre (commit actor change onError) (fun _ _ => True) := by
  refine orgDiscipline.ensures_attempt stable fun w _ w' sound before done => ?_
  split at done
  · rename_i db applied
    cases done
    obtain ⟨tables,continues⟩ := apply_keeps sound.tables applied
    refine ⟨⟨tables,fun entry mem => ?_⟩,continues,trivial⟩
    rcases mem_snoc.mp mem with old | rfl
    · exact sound.logged entry old
    · exact ⟨sound.tables,known w before,applied⟩
  · cases done

/-- The common opening of the routes: find the organization and the user's own
    membership in it. -/
theorem withMembership_ensures {orgId : Uuid} {rest : Org → OrgMembership → OrgAction β}
    (h : ∀ org membership, orgDiscipline.Ensures (fun _ => True) (rest org membership) post) :
    orgDiscipline.Ensures (fun _ => True) (do
      let some org ← orgQuery (·.getOrgByUuid orgId) | throw missing
      let some membership ← orgQuery (·.getByPlatformUserAndOrg user org.id) | throw .unauthorized
      rest org membership) post := by
  refine orgDiscipline.ensures_bind (orgQuery_ensures _) fun org => ?_
  cases org with
  | none => exact orgDiscipline.ensures_throw
  | some org =>
    refine orgDiscipline.ensures_bind (orgQuery_ensures _) fun membership => ?_
    cases membership with
    | none => exact orgDiscipline.ensures_throw
    | some membership => exact h org membership

theorem target_ensures {rest : OrgMembership → OrgAction β}
    (h : ∀ target, orgDiscipline.Ensures (fun w => target.Known w.db) (rest target) post) :
    orgDiscipline.Ensures (fun _ => True) (do
      let some target ← orgQuery (·.getByPlatformUserAndOrg user orgId) | throw missing
      rest target) post := by
  have read :
    orgDiscipline.Ensures (fun _ => True) (orgQuery (·.getByPlatformUserAndOrg user orgId))
      (fun found w => ∀ target, found = some target → target.Known w.db) :=
    orgDiscipline.ensures_inspect orgStable_true fun w sound _ target found =>
      known_of_read sound.tables found
  refine orgDiscipline.ensures_bind read fun found => ?_
  cases found with
  | none => exact orgDiscipline.ensures_throw
  | some target => exact orgDiscipline.ensures_strengthen (fun _ _ all => all target rfl) (h target)

theorem handleOrg_ensures (request : OrgRequest) :
    orgDiscipline.Ensures (fun _ => True) (handleOrg request) (fun _ _ => True) := by
  have plain : ∀ {actor change onError}, (∀ db, Change.Known db change) →
      orgDiscipline.Ensures (fun _ => True) (commit actor change onError) (fun _ _ => True) :=
    fun known => commit_ensures orgStable_true fun w _ => known w.db
  cases request with
  | createOrg user uuid => exact plain fun _ => trivial
  | deleteOrg user orgId =>
    refine withMembership_ensures fun org membership => ?_
    split
    · exact plain fun _ => trivial
    · exact orgDiscipline.ensures_throw
  | createInvite user orgId email role code now =>
    refine withMembership_ensures fun org membership => ?_
    split
    · exact plain fun _ => trivial
    · exact orgDiscipline.ensures_throw
  | deleteInvite user orgId code =>
    refine withMembership_ensures fun org membership => ?_
    split
    · refine orgDiscipline.ensures_bind (orgQuery_ensures _) fun invite => ?_
      cases invite with
      | none => exact orgDiscipline.ensures_throw
      | some invite =>
        dsimp only
        split
        · exact plain fun _ => trivial
        · exact orgDiscipline.ensures_throw
    · exact orgDiscipline.ensures_throw
  | acceptInvite user code checked marked =>
    refine orgDiscipline.ensures_bind (orgQuery_ensures _) fun invite => ?_
    cases invite with
    | none => exact orgDiscipline.ensures_throw
    | some invite =>
      dsimp only
      split
      · exact orgDiscipline.ensures_throw
      · split
        · exact orgDiscipline.ensures_throw
        · split
          · exact orgDiscipline.ensures_throw
          · exact plain fun _ => trivial
  | updateMembership user orgId userId role =>
    refine withMembership_ensures fun org membership => ?_
    split
    · refine target_ensures fun target => ?_
      refine orgDiscipline.ensures_bind (commit_ensures (known_stable target) fun w known => known)
        fun _ => ?_
      refine orgDiscipline.ensures_bind (orgQuery_ensures _) fun again => ?_
      cases again with
      | none => exact orgDiscipline.ensures_throw
      | some again => exact orgDiscipline.ensures_pure fun _ _ _ => trivial
    · exact orgDiscipline.ensures_throw
  | deleteMembership user orgId userId =>
    refine withMembership_ensures fun org membership => ?_
    split
    · exact target_ensures fun target => commit_ensures (known_stable target) fun w known => known
    · exact orgDiscipline.ensures_throw

theorem organizations_served :
    Interleaving.Served orgDiscipline organizations (fun _ _ _ => True) where
  stable _ _ := orgStable_true
  handled request w _ sound := orgDiscipline.safe_mono (fun _ _ _ _ => trivial)
    (handleOrg_ensures request w ⟨sound,trivial⟩)
  interference _ _ h := h.elim

end

section
variable {start : OrgTables} {c d : Config OrgWorld OrgRequest (Except ApiError Unit)}

def opening (start : OrgTables) : Config OrgWorld OrgRequest (Except ApiError Unit) :=
  ⟨⟨start,[]⟩,[]⟩

theorem opening_ready (sound : start.Sound) :
    Ready orgDiscipline (fun _ _ _ => True) (opening start) :=
  ⟨⟨sound,by simp [opening]⟩,by simp [opening]⟩

theorem opening_confined : (opening start).Confined Committed := by simp [Config.Confined, opening]

theorem org_step (reached : Run organizations (opening start) c) (step : Step organizations c d) :
    d.shared = c.shared ∨ Committed c.shared d.shared :=
  step_within organizations_confined
    (run_confined organizations_confined opening_confined reached) step

theorem log_grows (reached : Run organizations (opening start) c) (run : Run organizations c d) :
    c.shared.log <+: d.shared.log := by
  induction run with
  | refl => exact prefix_rfl
  | tail before step ih =>
    rcases org_step (reached.trans before) step with same | ⟨actor,change,_,log⟩
    · rw [same]
      exact ih
    · rw [log]
      exact ih.trans (prefix_append _ _)

theorem logged_step (run : Run organizations (opening start) c) {entry : Commit}
    (mem : entry ∈ c.shared.log) :
    ∃ before after, Run organizations (opening start) before ∧ Step organizations before after ∧
      Run organizations after c ∧ before.shared.db = entry.before ∧
        after.shared.db = entry.after := by
  induction run with
  | refl => cases mem
  | @tail c d reached step ih =>
    have source : entry ∈ c.shared.log ∨
        c.shared.db = entry.before ∧ d.shared.db = entry.after := by
      rcases org_step reached step with same | ⟨actor,change,_,log⟩
      · rw [same] at mem
        exact .inl mem
      · rw [log] at mem
        rcases mem_snoc.mp mem with old | rfl
        · exact .inl old
        · exact .inr ⟨rfl,rfl⟩
    rcases source with old | ⟨sameBefore,sameAfter⟩
    · obtain ⟨before,after,first,moved,rest,sameBefore,sameAfter⟩ := ih old
      exact ⟨before,after,first,moved,rest.tail step,sameBefore,sameAfter⟩
    · exact ⟨c,d,reached,step,.refl,sameBefore,sameAfter⟩

theorem allOwned_of_guarded (sound : start.Sound) (owned : start.AllOwned)
    (run : Run organizations (opening start) c)
    (guarded : ∀ entry ∈ c.shared.log, ¬ entry.change.Unguarded entry.before) :
    c.shared.db.AllOwned := by
  induction run with
  | refl => exact owned
  | @tail c d reached step ih =>
    rcases org_step reached step with same | ⟨actor,change,_,log⟩
    · rw [same] at guarded ⊢
      exact ih guarded
    · have inLog : ⟨actor,change,c.shared.db,d.shared.db⟩ ∈ d.shared.log := by simp [log]
      obtain ⟨tables,known,applied⟩ :=
        (run_ready organizations_served (opening_ready sound) (reached.tail step)).1.logged _ inLog
      have before := ih fun entry mem => guarded entry (by simp [log, mem])
      exact (apply_allOwned_iff tables before known applied).mpr (guarded _ inLog)

/-- Every organization has an owner at every moment of a run exactly when no
    transaction of the run demotes or removes the only owner of an organization
    on the strength of a role that was read before it became the owner. -/
theorem organizations_keep_owner_iff (sound : start.Sound) (owned : start.AllOwned)
    (run : Run organizations (opening start) c) :
    (∀ moment, Run organizations (opening start) moment → Run organizations moment c →
      moment.shared.db.AllOwned) ↔
    ∀ entry ∈ c.shared.log, ¬ entry.change.Unguarded entry.before := by
  constructor
  · intro always entry mem
    obtain ⟨before,after,first,step,rest,sameBefore,sameAfter⟩ := logged_step run mem
    obtain ⟨tables,known,applied⟩ :=
      (run_ready organizations_served (opening_ready sound) run).1.logged entry mem
    have ownedBefore := always before first (.head step rest)
    have ownedAfter := always after (first.tail step) rest
    rw [sameBefore] at ownedBefore
    rw [sameAfter] at ownedAfter
    exact (apply_allOwned_iff tables ownedBefore known applied).mp ownedAfter
  · intro guarded moment first rest
    exact allOwned_of_guarded sound owned first
      fun entry mem => guarded entry ((log_grows first rest).subset mem)

end

def Change.checked : Change → Bool
  | .updateRole membership role => membership.role = .owner || role = .owner
  | .deleteMembership membership => membership.role = .owner
  | _ => true

theorem not_unguarded {change : Change} (checked : change.checked = true) (db : OrgTables) :
    ¬ change.Unguarded db := by
  cases change with
  | updateRole membership role =>
    rintro ⟨read,lower,_⟩
    simp [Change.checked, read, lower] at checked
  | deleteMembership membership =>
    rintro ⟨read,_⟩
    simp [Change.checked, read] at checked
  | _ => exact id

def alice : PlatformUser := ⟨1,sampleUuid 1,"alice@x.y",none⟩

def bob : PlatformUser := ⟨2,sampleUuid 2,"bob@x.y",none⟩

def sampleOrg : OrgTables :=
  ⟨[⟨0,sampleUuid 9⟩],[⟨0,alice.uuid,0,.owner⟩,⟨1,bob.uuid,0,.admin⟩],[],1,2,0⟩

/-- Alice starts to make Bob a viewer. Before that commits she makes him an
    owner, and he makes her a viewer. -/
def outdatedRole : List (Move OrgRequest) :=
  .arrive (.updateMembership alice (sampleUuid 9) bob.uuid .viewer) ::
    replicate 3 (.advance 0) ++
    .arrive (.updateMembership alice (sampleUuid 9) bob.uuid .owner) ::
      replicate 5 (.advance 1) ++
    .arrive (.updateMembership bob (sampleUuid 9) alice.uuid .viewer) ::
      replicate 5 (.advance 2) ++
    replicate 2 (.advance 0)

theorem last_owner_demoted : ∃ c, Run organizations (opening sampleOrg) c ∧
    c.threads.map (·.2.result?) = [some (.ok ()),some (.ok ()),some (.ok ())] ∧
    c.shared.db.orgs = [⟨0,sampleUuid 9⟩] ∧ c.shared.db.owners 0 = [] :=
  ⟨(opening sampleOrg).play organizations outdatedRole,run_play (fun _ _ => trivial) _,
    by decide +kernel,by decide +kernel,by decide +kernel⟩

/-- The same requests one after the other: the third finds its target an owner. -/
def currentRole : List (Move OrgRequest) :=
  .arrive (.updateMembership alice (sampleUuid 9) bob.uuid .owner) ::
    replicate 5 (.advance 0) ++
    .arrive (.updateMembership bob (sampleUuid 9) alice.uuid .viewer) ::
      replicate 5 (.advance 1) ++
    .arrive (.updateMembership bob (sampleUuid 9) bob.uuid .viewer) :: replicate 5 (.advance 2)

theorem last_owner_kept :
    ((opening sampleOrg).play organizations currentRole).threads.map (·.2.result?) =
      [some (.ok ()),some (.ok ()),some (.error .badRequest)] ∧
    ∀ moment, Run organizations (opening sampleOrg) moment →
      Run organizations moment ((opening sampleOrg).play organizations currentRole) →
      moment.shared.db.AllOwned := by
  refine ⟨by decide +kernel,?_⟩
  have checked : ((opening sampleOrg).play organizations currentRole).shared.log.all
      (fun entry => entry.change.checked) = true := by decide +kernel
  exact (organizations_keep_owner_iff ⟨by decide,by decide,by decide⟩
    (by unfold OrgTables.AllOwned; decide) (run_play (fun _ _ => trivial) currentRole)).mpr
    fun entry mem => not_unguarded (all_eq_true.mp checked entry mem) entry.before

end OpenSecret

import OpenSecret.Credentials.Guarantees
import OpenSecret.Credentials.Steps

/-!
A password reset request is used once. Every handler may run, in every
interleaving and with whatever token; the table of reset requests changes in
three ways only, and none of them revives a request that has been spent.
Accounts may disappear with their requests at any time.
-/
namespace OpenSecret
open Framing Interleaving List

def Commits (id : Nat) (user : Uuid) (w w' : World) : Prop :=
  ∃ owner request now newPasswordEnc newWrapping, owner.uuid = user ∧ request.id = id ∧
    w.db.completeDestructivePasswordReset owner request now newPasswordEnc newWrapping = .ok w'.db

def DropsRequests (w w' : World) : Prop :=
  w'.db.resetRequests.Sublist w.db.resetRequests ∧ w'.db.resetSeq = w.db.resetSeq

inductive ResetStep (w w' : World) : Prop where
  | dropped (h : DropsRequests w w')
  | requested {user : Uuid} {hashedSecret : Text} {code : Bytes} {expirationTime : Int}
      (h : w'.db = w.db.createPasswordResetRequest user hashedSecret code expirationTime)
  | committed {id : Nat} {user : Uuid} (h : Commits id user w w')

def resets (S : AppState) : System World Request (Outcome ApiError Reply) where
  handle request := (handle S request).run
  admits _ _ := True
  interferes := DropsRequests

section
variable {S : AppState} {ε : Type}

theorem resetStep_of_same {w w' : World} (rows : w'.db.resetRequests = w.db.resetRequests)
    (seq : w'.db.resetSeq = w.db.resetSeq) : ResetStep w w' :=
  .dropped ⟨by rw [rows],seq⟩

instance : Lenient ResetStep := ⟨fun _ rows seq => resetStep_of_same rows seq⟩

variable {user : User} {expected encrypted : Bytes} {new : UserSeedWrapping}
  {newUser : NewUser} {uuid : Uuid}
  {verifier : Text} {seed : Bytes} {nonce : Nonce}

theorem updateUserPasswordAndSeedWrap_resets {db db' : Database}
    (h : db.updateUserPasswordAndSeedWrap user expected encrypted new = .ok db') :
    db'.resetRequests = db.resetRequests ∧ db'.resetSeq = db.resetSeq := by
  simp only [Database.updateUserPasswordAndSeedWrap, Database.insertWrapping] at h
  split at h
  · cases h
  · split at h
    · cases h
    · cases h
      exact ⟨rfl,rfl⟩

@[simp] theorem within_createUserWithPasswordSeedWrap :
    Within ResetStep
      (attempt (createUserWithPasswordSeedWrap S newUser uuid verifier seed nonce)) := by
  refine within_attempt fun w user w' created => ?_
  obtain ⟨new,_,_,_,db,_⟩ := createUserWithPasswordSeedWrap_ok created
  exact resetStep_of_same (by rw [db, Database.upsertByCredential_eq])
    (by rw [db, Database.upsertByCredential_eq])

@[simp] theorem within_createUserWithOauthSeedWrap
    {provider : OAuthProvider} {providerName providerUserId : Text} {accessTokenEnc : Bytes} :
    Within ResetStep (attempt (createUserWithOauthSeedWrap S newUser uuid provider providerName
      providerUserId accessTokenEnc seed nonce)) := by
  refine within_attempt fun w user w' created => ?_
  obtain ⟨new,_,_,_,db,_⟩ := createUserWithOauthSeedWrap_ok created
  exact resetStep_of_same (by rw [db, Database.upsertByCredential_eq]; rfl)
    (by rw [db, Database.upsertByCredential_eq]; rfl)

@[simp] theorem within_commitPasswordChange :
    Within ResetStep
      (attempt (commitPasswordChange user expected encrypted new verifier seed)) := by
  refine within_attempt fun w _ w' committed => ?_
  obtain ⟨rows,seq⟩ := updateUserPasswordAndSeedWrap_resets (commitPasswordChange_ok committed).1
  exact resetStep_of_same rows seq

@[simp] theorem within_commitDestructiveReset {request : PasswordResetRequest} {now : Int} :
    Within ResetStep
      (attempt (commitDestructiveReset user request now encrypted new verifier seed)) := by
  refine within_attempt fun w _ w' committed => ?_
  exact .committed ⟨user,request,now,encrypted,new,rfl,rfl,(commitDestructiveReset_ok committed).1⟩

@[simp] theorem within_writeResetRequest {user : Uuid} {hashedSecret : Text} {code : Bytes}
    {expirationTime : Int} :
    Within ResetStep
      (write (·.createPasswordResetRequest user hashedSecret code expirationTime) :
        Action ε Unit) := by
  refine within_attempt fun w _ w' written => ?_
  cases written
  exact .requested rfl

@[simp] theorem within_findOrCreateUserFromOauth {assertion : ProviderAssertion}
    {projectId : Int32} {draws : Draws} :
    Within ResetStep (findOrCreateUserFromOauth S assertion projectId draws) := by
  simp [findOrCreateUserFromOauth, Option.forall, createOauthUser]

theorem handle_within (request : Request) : Within ResetStep (handle S request) := by
  cases request with
  | register creds draws =>
    have email : ∀ project, Within ResetStep (checkEmailFree S creds.email project) := by
      intro project
      unfold checkEmailFree
      split <;> simp
    simp [handle, register, registerUser, email]
  | login creds draws => simp [handle]
  | refresh token draws => simp [handle, refreshToken]
  | authorize authorization draws => simp [handle]
  | changePassword authorization current new draws =>
    simp [handle, changePassword, updateUserPasswordAndSeedWrap, readSeed]
  | requestReset email secret clientId draws =>
    simp [handle, passwordResetRequest, createPasswordResetRequest, Option.forall, -yields_query]
  | confirmReset email code secret new clientId draws =>
    simp [handle, passwordResetConfirm, confirmPasswordReset]
  | oauthCallback assertion clientId draws => simp [handle, oauthCallback]
  | appleNativeSignin sub tokenEmail requestEmail userIdentifier clientId draws =>
    simp [handle, handleAppleNativeSignin, Option.forall]
  | thirdPartyToken authorization audience draws =>
    simp [handle, generateThirdPartyToken, signToken]
  | platformToken platformUser tokenType draws => simp [handle, issuePlatformToken, signToken]

theorem resets_confined (S : AppState) : (resets S).Confined ResetStep where
  handled := handle_within
  interference _ _ h := .dropped h

end

/-- Serial ids: unique, and below the next one. -/
structure Numbered (db : Database) : Prop where
  unique : (db.resetRequests.map PasswordResetRequest.id).Nodup
  below : ∀ r ∈ db.resetRequests, r.id < db.resetSeq

def Spent (id : Nat) (db : Database) : Prop :=
  id < db.resetSeq ∧ ∀ r ∈ db.resetRequests, r.id = id → r.isReset = true

def spend (user : Uuid) (id : Nat) (now : Int) (r : PasswordResetRequest) : PasswordResetRequest :=
  if (r.id = id && r.userId = user && !r.isReset && r.expirationTime > now) ||
      (r.userId = user && r.id ≠ id && !r.isReset) then
    { r with isReset := true }
  else r

section
variable {w w' : World} {id : Nat} {user : Uuid} {now : Int}

@[simp] theorem spend_id (r : PasswordResetRequest) : (spend user id now r).id = r.id := by
  unfold spend
  split <;> rfl

variable {r : PasswordResetRequest}

theorem spend_mono (spent : r.isReset = true) :
    (spend user id now r).isReset = true := by
  unfold spend
  split
  · rfl
  · exact spent

theorem spend_owned (owned : r.userId = user)
    (valid : r.id = id → now < r.expirationTime) : (spend user id now r).isReset = true := by
  by_cases spent : r.isReset = true
  · exact spend_mono spent
  · unfold spend
    rw [if_pos]
    by_cases same : r.id = id <;> simp_all

theorem commits_rows (h : Commits id user w w') : ∃ now,
    (∃ r ∈ w.db.resetRequests, r.id = id ∧ r.userId = user ∧ r.isReset = false ∧
      now < r.expirationTime) ∧
    w'.db.resetSeq = w.db.resetSeq ∧
    w'.db.resetRequests = w.db.resetRequests.map (spend user id now) := by
  obtain ⟨owner,request,now,encrypted,new,rfl,rfl,done⟩ := h
  simp only [Database.completeDestructivePasswordReset] at done
  split at done
  · cases done
  · split at done
    · cases done
    · rename_i counted
      obtain ⟨hit,mem,consumed⟩ := countP_pos_iff.mp
        (Nat.lt_of_lt_of_eq Nat.one_pos (not_not.mp counted).symm)
      simp only [Bool.and_eq_true, decide_eq_true_eq, Bool.not_eq_true'] at consumed
      obtain ⟨⟨⟨sameId,owned⟩,unspent⟩,valid⟩ := consumed
      refine ⟨now,⟨hit,mem,sameId,owned,unspent,valid⟩,?_⟩
      rw [← Except.ok.inj done, Database.upsertByCredential_eq]
      exact ⟨rfl,rfl⟩

theorem spent_blocks (spent : Spent id w.db) : ¬ Commits id user w w' := by
  intro commits
  obtain ⟨_,⟨r,mem,same,_,unspent,_⟩,_⟩ := commits_rows commits
  rw [spent.2 r mem same] at unspent
  cases unspent

theorem resetStep_numbered (step : ResetStep w w') (numbered : Numbered w.db) : Numbered w'.db := by
  cases step with
  | dropped h =>
    refine ⟨(h.1.map _).nodup numbered.unique,fun r mem => ?_⟩
    rw [h.2]
    exact numbered.below r (h.1.mem mem)
  | requested h =>
    rw [h]
    refine ⟨?_,fun r mem => ?_⟩
    · simp only [Database.createPasswordResetRequest, map_append, map_singleton]
      refine nodup_append.mpr ⟨numbered.unique,nodup_singleton _,fun a old b new => ?_⟩
      obtain ⟨r,mem,rfl⟩ := mem_map.mp old
      rw [mem_singleton.mp new]
      exact ne_of_lt (numbered.below r mem)
    · rcases mem_snoc.mp mem with old | rfl
      · exact Nat.lt_succ_of_lt (numbered.below r old)
      · exact Nat.lt_succ_self _
  | committed h =>
    obtain ⟨now,_,seq,rows⟩ := commits_rows h
    have ids : w'.db.resetRequests.map PasswordResetRequest.id =
        w.db.resetRequests.map PasswordResetRequest.id := by
      rw [rows, map_map]
      exact map_congr_left fun r _ => spend_id r
    refine ⟨by rw [ids]; exact numbered.unique,fun r mem => ?_⟩
    obtain ⟨old,inRows,same⟩ := mem_map.mp (ids ▸ mem_map_of_mem mem)
    rw [seq, ← same]
    exact numbered.below old inRows

theorem resetStep_spent (step : ResetStep w w') (spent : Spent id w.db) : Spent id w'.db := by
  cases step with
  | dropped h =>
    refine ⟨by rw [h.2]; exact spent.1,fun r mem => spent.2 r (h.1.mem mem)⟩
  | requested h =>
    rw [h]
    refine ⟨Nat.lt_succ_of_lt spent.1,fun r mem same => ?_⟩
    rcases mem_snoc.mp mem with old | rfl
    · exact spent.2 r old same
    · exact absurd same.symm (ne_of_lt spent.1)
  | committed h =>
    obtain ⟨now,_,seq,rows⟩ := commits_rows h
    refine ⟨by rw [seq]; exact spent.1,fun r mem same => ?_⟩
    rw [rows] at mem
    obtain ⟨old,inRows,rfl⟩ := mem_map.mp mem
    exact spend_mono (spent.2 old inRows ((spend_id old).symm.trans same))

theorem commits_spent (numbered : Numbered w.db) (h : Commits id user w w')
    {earlier : PasswordResetRequest} (mem : earlier ∈ w.db.resetRequests)
    (owned : earlier.userId = user) : Spent earlier.id w'.db := by
  obtain ⟨now,⟨hit,hitRow,hitId,_,_,valid⟩,seq,rows⟩ := commits_rows h
  refine ⟨by rw [seq]; exact numbered.below earlier mem,fun r inRows same => ?_⟩
  rw [rows] at inRows
  obtain ⟨old,inOld,rfl⟩ := mem_map.mp inRows
  obtain rfl := inj_on_of_nodup_map numbered.unique inOld mem ((spend_id old).symm.trans same)
  refine spend_owned owned fun named => ?_
  -- serial ids: the row the reset named is the one it found open and in time
  obtain rfl := inj_on_of_nodup_map numbered.unique inOld hitRow (named.trans hitId.symm)
  exact valid

end

/-- Once a reset of an account has committed, neither its own request nor any
    other request of the account that existed by then can commit again. -/
theorem password_reset_single_use (S : AppState) {start : World}
    {c d e : Config World Request (Outcome ApiError Reply)} (numbered : Numbered start.db)
    (before : Run (resets S) ⟨start,[]⟩ c) (step : Step (resets S) c d) {id : Nat} {user : Uuid}
    (commits : Commits id user c.shared d.shared) (after : Run (resets S) d e) :
    (∀ owner w, ¬ Commits id owner e.shared w) ∧
      ∀ earlier ∈ c.shared.db.resetRequests, earlier.userId = user →
        ∀ owner w, ¬ Commits earlier.id owner e.shared w := by
  have confined := resets_confined S
  have idle :
    Config.Confined ResetStep (⟨start,[]⟩ : Config World Request (Outcome ApiError Reply)) :=
    fun _ mem => by cases mem
  have reached : Numbered c.shared.db := run_keeps (fun w => Numbered w.db) confined idle
    (fun _ _ => resetStep_numbered) before numbered
  have later := run_confined confined idle (before.tail step)
  have siblings : ∀ earlier ∈ c.shared.db.resetRequests, earlier.userId = user →
      ∀ owner w, ¬ Commits earlier.id owner e.shared w := by
    intro earlier mem owned owner w
    have spent : Spent earlier.id e.shared.db := run_keeps (fun w => Spent earlier.id w.db)
      confined later (fun _ _ => resetStep_spent) after (commits_spent reached commits mem owned)
    exact spent_blocks spent
  obtain ⟨_,⟨own,mem,rfl,owned,_⟩,_⟩ := commits_rows commits
  exact ⟨siblings own mem owned,siblings⟩

def sampleResetRequest (n : UInt8) : Request :=
  .requestReset "a@b.c" (transparentState.generateResetHash "secret") (sampleUuid 1)
    (sampleDraws n)

def sampleConfirm : Request :=
  .confirmReset "a@b.c" (generateAlphanumericCode (sampleDraws 3).codeBytes) "secret"
    "new" (sampleUuid 1) (sampleDraws 4)

/-- Two requests are made and the first is about to be used. -/
def beforeReset : Config World Request (Outcome ApiError Reply) :=
  Config.play (resets transparentState) ⟨afterRegister.2,[]⟩
    (.arrive (sampleResetRequest 3) :: replicate 4 (.advance 0) ++
      .arrive (sampleResetRequest 5) :: replicate 4 (.advance 1) ++
      .arrive sampleConfirm :: replicate 4 (.advance 2))

def afterReset : Config World Request (Outcome ApiError Reply) := beforeReset.advance 2

deriving instance DecidableEq for Database

theorem sampleConfirm_commits : Commits 0 (sampleUuid 7) beforeReset.shared afterReset.shared := by
  have done : (beforeReset.shared.db.users.head?.bind fun owner =>
      beforeReset.shared.db.resetRequests.head?.bind fun request =>
      afterReset.shared.db.users.head?.bind fun changed =>
      changed.passwordEnc.bind fun encrypted =>
      afterReset.shared.db.wraps.head?.map fun new =>
      decide (owner.uuid = sampleUuid 7 ∧ request.id = 0 ∧
        beforeReset.shared.db.completeDestructivePasswordReset owner request 0 encrypted new =
          .ok afterReset.shared.db)) = some true := by decide +kernel
  simp only [Option.bind_eq_some_iff, Option.map_eq_some_iff, decide_eq_true_eq] at done
  obtain ⟨owner,_,request,_,changed,_,encrypted,_,new,_,h⟩ := done
  exact ⟨owner,request,0,encrypted,new,h⟩

theorem reset_voids_the_other_request :
    beforeReset.shared.db.resetRequests.map (fun r => (r.id,r.userId,r.isReset)) =
      [(0,sampleUuid 7,false),(1,sampleUuid 7,false)] ∧
    ∀ owner w, ¬ Commits 1 owner afterReset.shared w := by
  have rows : beforeReset.shared.db.resetRequests.map (fun r => (r.id,r.userId,r.isReset)) =
      [(0,sampleUuid 7,false),(1,sampleUuid 7,false)] := by decide +kernel
  have other : (1,sampleUuid 7,false) ∈
      beforeReset.shared.db.resetRequests.map (fun r => (r.id,r.userId,r.isReset)) := by simp [rows]
  obtain ⟨earlier,mem,same⟩ := mem_map.mp other
  simp only [Prod.mk.injEq] at same
  have void := (password_reset_single_use transparentState ⟨by decide +kernel,by decide +kernel⟩
    (run_play (fun _ _ => trivial) _) (step_advance (by decide +kernel))
      sampleConfirm_commits .refl).2
    earlier mem same.2.1
  rw [same.1] at void
  exact ⟨rows,void⟩

end OpenSecret

import OpenSecret.Credentials.Guarantees

/-!
The accounts of a run that nobody has tampered with. However the transactions of
registration, OAuth sign-up, password change and reset interleave, the wraps of
one account agree with its verifier and with each other.
-/
namespace OpenSecret
open Framing Chronicle Interleaving List

variable {S : AppState} {w : World} {user : User} {seed : Bytes} {row : UserSeedWrapping}

/-- Key and associated data do not depend on the bytes, so where one wrap opens
    no other one panics. -/
theorem decryptSeedV1_no_panic {bytes other opened : Bytes} {uuid : Uuid} {project : Int32}
    {kind : CredentialKind} {binding : AuthBinding}
    (opens : decryptSeedV1 S.primitives S.enclaveKey bytes uuid project kind binding = .ok opened) :
    decryptSeedV1 S.primitives S.enclaveKey other uuid project kind binding ≠ .error .panicked := by
  obtain ⟨key,aad,derived,encoded,_⟩ := decryptSeedV1_ok opens
  have shape : decryptSeedV1 S.primitives S.enclaveKey other uuid project kind binding =
      decryptAeadV1 S.primitives key other aad := by
    rw [decryptSeedV1, derived, encoded]
    rfl
  rw [shape, decryptAeadV1]
  split
  · simp
  · exact Outcome.ofOption_ne_panicked _ _

/-- The loop finds the seed if some wrap opens and every wrap that opens holds it. -/
theorem openFirst_of_mem {kind : CredentialKind} {binding : AuthBinding}
    {rows : List UserSeedWrapping}
    (mem : row ∈ rows) (version : row.wrappingVersion = seedWrapVersionV1)
    (opens : decryptSeedV1 S.primitives S.enclaveKey row.seedEnc
      user.uuid user.projectId kind binding =
      .ok seed)
    (same : ∀ other ∈ rows, ∀ opened,
      decryptSeedV1 S.primitives S.enclaveKey other.seedEnc user.uuid
      user.projectId kind binding = .ok opened → opened = seed) :
    openFirst S user kind binding rows = .ok seed := by
  induction rows with
  | nil => cases mem
  | cons first rest ih =>
    have sameRest := fun other inRest => same other (mem_cons_of_mem first inRest)
    rcases mem_cons.mp mem with rfl | inRest
    · rw [openFirst, if_neg (by simp [version]), opens]
    · unfold openFirst
      split
      · exact ih inRest sameRest
      · split
        · rename_i opened opensFirst
          rw [same first mem_cons_self opened opensFirst]
        · rename_i panics
          exact absurd panics (decryptSeedV1_no_panic opens)
        · exact ih inRest sameRest

variable {facts : AuthFacts}

theorem sealed_opens (env : Environment S) (inv : Invariant S w) {sealed : Bytes}
    (wrapped : .wrapped facts seed sealed ∈ w.journal) :
    ∃ binding, facts.authBinding S.primitives S.enclaveKey = .ok binding ∧
      decryptSeedV1 S.primitives S.enclaveKey sealed facts.userUuid
        facts.projectId facts.kind binding =
        .ok seed := by
  obtain ⟨_,_,_,valid⟩ := justified_mem inv.justified wrapped
  obtain ⟨_,binding,bound,_⟩ := id valid
  exact ⟨binding,bound,wrapValid_opens env valid bound⟩

theorem sealedFor_only (env : Environment S) (inv : Invariant S w)
    (sealedFor : SealedFor w.journal user seed row) {uuid : Uuid} {project : Int32}
    {kind : CredentialKind} {binding : AuthBinding} {opened : Bytes}
    (opens : decryptSeedV1 S.primitives S.enclaveKey row.seedEnc uuid project kind binding =
      .ok opened) : opened = seed := by
  obtain ⟨_,facts,_,_,_,wrapped⟩ := sealedFor
  obtain ⟨_,_,_,valid⟩ := justified_mem inv.justified wrapped
  exact (wrapValid_only env valid opens).2.2.2.2

theorem decryptSeedForAuthContext_of_row (env : Environment S) (inv : Invariant S w)
    (rows : ∀ row ∈ w.db.wrapsOf user.uuid, SealedFor w.journal user seed row)
    (inRows : row ∈ w.db.wrapsOf user.uuid) (owner : facts.userUuid = user.uuid)
    (project : facts.projectId = user.projectId) {held : Bytes}
    (wrapped : .wrapped facts held row.seedEnc ∈ w.journal) {method : AuthMethod}
    (kind : facts.kind = method.credentialKind)
    (rowKind : row.credentialKind = method.credentialKind.asStr) :
    ∃ binding, facts.authBinding S.primitives S.enclaveKey = .ok binding ∧
      decryptSeedV1 S.primitives S.enclaveKey row.seedEnc user.uuid user.projectId
        method.credentialKind binding = .ok seed ∧
      decryptSeedForAuthContext S w.db user (.new method user.projectId binding.bytes) =
        .ok seed := by
  obtain ⟨binding,bound,opens⟩ := sealed_opens env inv wrapped
  rw [owner, project, kind] at opens
  obtain rfl := sealedFor_only env inv (rows row inRows) opens
  refine ⟨binding,bound,opens,?_⟩
  rw [decryptSeedForAuthContext, if_neg (by simp [AuthContext.new])]
  show openFirst S user method.credentialKind binding
    (w.db.getUserSeedWrappingsForUserAndKind user.uuid method.credentialKind.asStr) = _
  rw [Database.getUserSeedWrappingsForUserAndKind_eq]
  refine openFirst_of_mem (mem_filter.mpr ⟨inRows,by simpa using rowKind⟩)
    (rows row inRows).version opens fun other mem opened opensOther => ?_
  exact sealedFor_only env inv (rows other (mem_filter.mp mem).1) opensOther

theorem provider_eq_of_id {providers : List OAuthProvider}
    (unique : (providers.map OAuthProvider.id).Nodup) {p q : OAuthProvider} (hp : p ∈ providers)
    (hq : q ∈ providers) (same : p.id = q.id) : p = q :=
  inj_on_of_nodup_map unique hp hq same

/-- All credentials of an account lead to its seed. -/
structure AccountOpens (S : AppState) (db : Database) (user : User) (seed : Bytes) : Prop where
  wraps : ∀ row ∈ db.wrapsOf user.uuid,
    (∃ kind binding, row.credentialKind = kind.asStr ∧ decryptSeedV1 S.primitives S.enclaveKey
      row.seedEnc user.uuid user.projectId kind binding = .ok seed) ∧
    ∀ uuid project kind binding opened,
      decryptSeedV1 S.primitives S.enclaveKey row.seedEnc uuid project
      kind binding = .ok opened → opened = seed
  password : ∀ passwordEnc, user.passwordEnc = some passwordEnc → ∃ verifier row binding,
    decryptVerifier S passwordEnc = .ok verifier ∧
    passwordAuthBindingForUser S user verifier = .ok binding ∧
    db.getUserSeedWrappingsForUserAndKind user.uuid CredentialKind.password.asStr = [row] ∧
    decryptSeedV1 S.primitives S.enclaveKey row.seedEnc user.uuid user.projectId .password binding =
      .ok seed ∧
    decryptSeedForAuthContext S db user (.new .password user.projectId binding.bytes) = .ok seed
  oauth : ∀ connection ∈ db.connections, connection.userId = user.uuid →
    (∃ provider ∈ db.providers, provider.id = connection.providerId) ∧
    ∀ provider ∈ db.providers, provider.id = connection.providerId → ∃ binding,
      oauthAuthBindingForUser S user provider.name connection.providerUserId = .ok binding ∧
      decryptSeedForAuthContext S db user (.new .oauth user.projectId binding.bytes) = .ok seed

/-- In every interleaving without tampering each account has one seed. Every
    wrap of the account opens to it, the password wrap is the only one of its
    kind and opens under the current verifier, and both the password and every
    OAuth connection release it. -/
theorem credentials_open_one_seed {S : AppState} (env : Environment S) {start : World}
    (initial : Initial start) {c : Config World Request (Outcome ApiError Reply)}
    (run : Run (enclave S) ⟨start,[]⟩ c) (untampered : Untampered c.shared.journal)
    {user : User} (mem : user ∈ c.shared.db.users) :
    ∃ seed, AccountOpens S c.shared.db user seed := by
  have inv := reachable_invariant env initial run
  have before := inv.consistent untampered
  obtain ⟨seed,rows,state⟩ := before.accounts user mem
  refine ⟨seed,fun row inRows =>
    ⟨?_,fun _ _ _ _ _ => sealedFor_only env inv (rows row inRows)⟩,?_,?_⟩
  · obtain ⟨_,facts,owner,project,rowKind,wrapped⟩ := rows row inRows
    obtain ⟨binding,_,opens⟩ := sealed_opens env inv wrapped
    rw [owner, project] at opens
    exact ⟨facts.kind,binding,rowKind,opens⟩
  · intro passwordEnc has
    simp only [PasswordState, has] at state
    obtain ⟨_,verifier,row,opensVerifier,_,only,wrapped⟩ := state
    have inPasswordRows : row ∈ passwordRows (c.shared.db.wrapsOf user.uuid) := by rw [only]; simp
    obtain ⟨inRows,rowKind⟩ := mem_filter.mp inPasswordRows
    have kind : (passwordFacts user verifier).kind = AuthMethod.password.credentialKind := rfl
    obtain ⟨binding,bound,opens,released⟩ := decryptSeedForAuthContext_of_row env inv rows inRows
      rfl rfl wrapped kind (decide_eq_true_eq.mp rowKind)
    refine ⟨verifier,row,binding,opensVerifier,passwordAuthBindingForUser_ok.mpr bound,
      ?_,opens,released⟩
    rw [Database.getUserSeedWrappingsForUserAndKind_eq]
    exact only
  · intro connection inConnections owns
    obtain ⟨owner,inUsers,sameOwner,provider,listed,sameId,row,inRows,rowKind,held,wrapped⟩ :=
      before.connected connection inConnections
    obtain rfl := user_eq_of_uuid before.uuids inUsers mem (sameOwner.trans owns)
    refine ⟨⟨provider,listed,sameId⟩,fun other listedOther sameId' => ?_⟩
    have later :=
      run_rely (enclave_served env) (initial_ready initial) run (initial_invariant initial)
    have unique := initial.providers
    rw [← later.2.2 untampered] at unique
    obtain rfl := provider_eq_of_id unique listedOther listed (sameId'.trans sameId.symm)
    have kind : (oauthFacts owner other.name connection.providerUserId).kind =
      AuthMethod.oauth.credentialKind := rfl
    obtain ⟨binding,bound,_,released⟩ := decryptSeedForAuthContext_of_row env inv rows inRows
      rfl rfl wrapped kind rowKind
    exact ⟨binding,oauthAuthBindingForUser_ok.mpr bound,released⟩

theorem changed_account_opens : ∃ user ∈ afterChange.2.db.users, user.passwordEnc.isSome ∧
    ∃ seed, AccountOpens transparentState afterChange.2.db user seed := by
  have present : afterChange.2.db.users.any (·.passwordEnc.isSome) = true := by decide +kernel
  obtain ⟨user,mem,has⟩ := any_eq_true.mp present
  exact ⟨user,mem,has,credentials_open_one_seed transparentState_environment sampleStart_initial
    changed_run (by unfold Untampered; decide +kernel) mem⟩

end OpenSecret

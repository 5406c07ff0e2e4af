import OpenSecret.Credentials.Sessions

/-!
What holds of every run of the enclave: requests arrive at any time, their steps
interleave in every way, and between two steps somebody may rewrite the tables.
A rewrite can put any bytes anywhere, but bytes that open as a seed wrap were
sealed by the enclave.
-/
namespace OpenSecret
open Framing Chronicle Interleaving

def tampers (S : AppState) (w w' : World) : Prop :=
  w'.journal = .tampered :: w.journal ∧ ∀ row ∈ w'.db.wraps, Genuine S w.journal row.seedEnc

def enclave (S : AppState) : System World Request (Outcome ApiError Reply) where
  handle request := (handle S request).run
  admits w request := (Fact.unforged S request.token?).holds w
  interferes := tampers S

/-- No accounts yet; projects and providers are given, with unique provider ids. -/
structure Initial (w : World) : Prop where
  users : w.db.users = []
  wraps : w.db.wraps = []
  connections : w.db.connections = []
  journal : w.journal = []
  providers : (w.db.providers.map OAuthProvider.id).Nodup

def Event.facts? : Event → Option AuthFacts
  | .wrapped facts _ _ => some facts
  | .stored _ facts _ => some facts
  | .verified facts _ => some facts
  | _ => none

def credentials (journal : List Event) : List AuthFacts := journal.filterMap Event.facts?

section
variable {S : AppState} {start : World} {c d : Config World Request (Outcome ApiError Reply)}

theorem mem_credentials {journal : List Event} {event : Event} {facts : AuthFacts}
    (mem : event ∈ journal) (about : event.facts? = some facts) : facts ∈ credentials journal :=
  List.mem_filterMap.mpr ⟨event,mem,about⟩

theorem initial_invariant (initial : Initial start) : Invariant S start where
  justified := by rw [initial.journal]; trivial
  genuine := by simp [initial.wraps]
  consistent _ :=
    { backed := by rw [initial.journal]; trivial
      uuids := by simp [initial.users]
      created := by simp [initial.journal]
      journalled := by simp [initial.users]
      known := by simp [initial.journal]
      settled := by simp [initial.journal]
      owned := by simp [initial.wraps]
      accounts := by simp [initial.users]
      reset := by simp [WasReset, initial.journal]
      connected := by simp [initial.connections] }

def served (S : AppState) (base : List Event) (request : Request) (result : Outcome ApiError Reply)
    (w : World) : Prop :=
  ∀ reply, result = .ok reply → (answered S base request reply).holds w

theorem served_stable (base : List Event) (request : Request) (result : Outcome ApiError Reply) :
    (discipline S).Stable (served S base request result) :=
  fun _ _ later h reply same => (answered S base request reply).grows later (h reply same)

theorem tampers_rely {w w' : World} (tampered : tampers S w w') : (discipline S).Rely w w' := by
  obtain ⟨journal,genuine⟩ := tampered
  have sub : w.journal <:+ w'.journal := by rw [journal]; exact List.suffix_cons _ _
  have disturbed : ¬ Untampered w'.journal := by rw [journal]; simp [Untampered]
  refine fun inv => ⟨⟨?_,?_,fun untampered => absurd untampered disturbed⟩,sub,
    fun untampered => absurd untampered disturbed⟩
  · rw [journal]
    exact ⟨trivial,inv.justified⟩
  · exact fun row mem => (genuine row mem).mono sub

theorem enclave_served (env : Environment S) :
    Served (discipline S) (enclave S) (served S []) where
  stable := served_stable []
  handled request w admitted inv :=
    handle_keeps env [] request w ⟨inv,List.nil_suffix,admitted⟩
  interference _ _ := tampers_rely

theorem initial_ready (initial : Initial start) :
    Ready (discipline S) (served S []) ⟨start,[]⟩ :=
  ⟨initial_invariant initial,by simp⟩

theorem reachable_invariant (env : Environment S) (initial : Initial start)
    (run : Run (enclave S) ⟨start,[]⟩ c) : Invariant S c.shared :=
  (run_ready (enclave_served env) (initial_ready initial) run).1

theorem late_thread_served (env : Environment S) (initial : Initial start)
    (run : Run (enclave S) ⟨start,[]⟩ c) (later : Run (enclave S) c d) {i : Nat} {request : Request}
    {reply : Reply} (late : c.threads.length ≤ i)
    (finished : d.threads[i]? = some (request,.done (.ok reply))) :
    (answered S c.shared.journal request reply).holds d.shared := by
  have ready := run_ready (enclave_served env) (initial_ready initial) run
  have handled : ∀ request w, Invariant S w → Later c.shared w → (enclave S).admits w request →
      (discipline S).Safe (served S c.shared.journal request) ((enclave S).handle request) w :=
    fun request w inv since admitted =>
      handle_keeps env c.shared.journal request w ⟨inv,since.1,admitted⟩
  have safe :=
    later_threads_safe (enclave_served env) (served_stable c.shared.journal) ready handled
    later i _ late finished
  exact safe.2 reply rfl

/-- A released seed was sealed under the credential facts that were checked when
    the caller, or the token the caller shows, was let in. -/
theorem released_seed_was_sealed_for_verified_facts (env : Environment S) (initial : Initial start)
    (run : Run (enclave S) ⟨start,[]⟩ c)
    (free : MacCollisionFree S.primitives S.enclaveKey (· ∈ credentials c.shared.journal))
    {request : Request} {reply : Reply} {who : AuthenticatedUser} {seed : Bytes}
    (finished : (request,.done (.ok reply)) ∈ c.threads) (answer : reply.who = some who)
    (released : decryptSeedForAuthContext S c.shared.db who.user who.authContext = .ok seed) :
    ∃ facts presented sealed, .verified facts presented ∈ c.shared.journal ∧
      Presented S facts presented ∧ (evidence S request facts presented).holds c.shared ∧
      .wrapped facts seed sealed ∈ c.shared.journal ∧
      facts.userUuid = who.user.uuid ∧ facts.projectId = who.user.projectId := by
  have ready := run_ready (enclave_served env) (initial_ready initial) run
  have inv : Invariant S c.shared := ready.1
  obtain ⟨facts,presented,shown,logged,agree⟩ :=
    ((finished_post ready finished).2 reply rfl).1 who answer
  obtain ⟨project,sealedFor,sealed,wrapped,matching,_⟩ := opened_of_decrypt env inv released
  -- both facts have the binding of the context
  have same : facts = sealedFor := free.binding_injective (mem_credentials logged rfl)
    (mem_credentials wrapped rfl) agree.binding matching.binding
  subst same
  obtain ⟨_,_,_,justified⟩ := justified_mem inv.justified logged
  exact ⟨facts,presented,sealed,logged,justified,shown,wrapped,
    agree.user,agree.project.trans project.symm⟩

end

def sampleStart : World :=
  ⟨⟨[],[],[],[],[⟨42,sampleUuid 1⟩],[⟨1,"google"⟩],0,0⟩,[]⟩

def sampleDraws (n : UInt8) : Draws :=
  ⟨fun _ => 0,fun _ => sampleNonce,[n],sampleUuid n,[n,n,n],.filled 8 n⟩

def serveAlone (S : AppState) (request : Request) (w : World) : Outcome ApiError Reply × World :=
  ((enclave S).handle request).finish w

def sampleRegister : Request :=
  .register ⟨some "a@b.c".toList,"old",sampleUuid 1⟩ (sampleDraws 7)

@[irreducible] def afterRegister : Outcome ApiError Reply × World :=
  serveAlone transparentState sampleRegister sampleStart

theorem sampleStart_initial : Initial sampleStart :=
  ⟨rfl,rfl,rfl,rfl,by decide⟩

theorem registered_run : Run (enclave transparentState) ⟨sampleStart,[]⟩
    ⟨afterRegister.2,[(sampleRegister,.done afterRegister.1)]⟩ := by
  unfold afterRegister
  exact run_finish fun _ _ given => by cases given

def seedReleased (S : AppState) (result : Outcome ApiError Reply) (w : World) : Option Bytes :=
  match result with
  | .error _ => none
  | .ok reply => reply.who.bind fun who =>
    (decryptSeedForAuthContext S w.db who.user who.authContext).toOption

theorem seedReleased_some {S : AppState} {result : Outcome ApiError Reply} {w : World}
    {seed : Bytes} (h : seedReleased S result w = some seed) : ∃ reply who, result = .ok reply ∧
      reply.who = some who ∧ decryptSeedForAuthContext S w.db who.user who.authContext =
        .ok seed := by
  unfold seedReleased at h
  split at h
  · cases h
  · rename_i reply
    obtain ⟨who,same,released⟩ := Option.bind_eq_some_iff.mp h
    refine ⟨reply,who,rfl,same,?_⟩
    cases opened : decryptSeedForAuthContext S w.db who.user who.authContext with
    | error e => rw [opened] at released; cases released
    | ok found => rw [opened] at released; cases released; rfl

/-- The user table is emptied after the registration. -/
def emptied :
    World := ⟨{ afterRegister.2.db with users := [] },.tampered :: afterRegister.2.journal⟩

theorem registered_seed_released_after_tampering :
    ∃ (c : Config World Request (Outcome ApiError Reply)) (who : AuthenticatedUser),
      Run (enclave transparentState) ⟨sampleStart,[]⟩ c ∧ c.shared.db.users = [] ∧
      decryptSeedForAuthContext transparentState c.shared.db who.user who.authContext =
        .ok [7,7,7] ∧
      ∃ facts presented sealed, .verified facts presented ∈ c.shared.journal ∧
        Presented transparentState facts presented ∧
        (evidence transparentState sampleRegister facts presented).holds c.shared ∧
        .wrapped facts [7,7,7] sealed ∈ c.shared.journal ∧
        facts.userUuid = who.user.uuid ∧ facts.projectId = who.user.projectId := by
  have genuine :=
    (reachable_invariant transparentState_environment sampleStart_initial registered_run).genuine
  have run : Run (enclave transparentState) ⟨sampleStart,[]⟩
      ⟨emptied,[(sampleRegister,.done afterRegister.1)]⟩ :=
    registered_run.tail (Step.interfere ⟨rfl,genuine⟩)
  have released : seedReleased transparentState afterRegister.1 emptied = some [7,7,7] := by
    decide +kernel
  obtain ⟨reply,who,answer,same,opened⟩ := seedReleased_some released
  refine ⟨_,who,run,rfl,opened,?_⟩
  exact released_seed_was_sealed_for_verified_facts transparentState_environment
    sampleStart_initial run
    (collisionFree_of_bindings (by decide +kernel)) (List.mem_singleton.mpr (by rw [answer]))
      same opened

section
variable {S : AppState} {start : World} {c d : Config World Request (Outcome ApiError Reply)}

variable {older : List Event} {facts : AuthFacts}

theorem signed_password_was_stored (justified : Justified (Justifies S) older)
    (backed : Justified Grounds older) {claims : Claims} (signed : .signed claims ∈ older)
    (format : claims.custom.tokenFormat = some userTokenFormatV2)
    (password : claims.custom.authMethod = some CredentialKind.password.asStr) :
    ∃ facts cause seed, .stored cause facts seed ∈ older ∧ facts.kind = .password ∧
      IssuedUnder S facts claims.custom := by
  obtain ⟨newer,before,rfl,shown⟩ := justified_mem justified signed
  obtain ⟨facts,presented,checked,issued⟩ := shown format
  have kind : facts.kind = .password :=
    CredentialKind.asStr_injective (Option.some.inj (issued.2.2.1.symm.trans password))
  obtain ⟨_,earlier,rfl,backs⟩ := justified_mem (justified_append backed).2 checked
  obtain ⟨cause,seed,stored⟩ := backs kind
  exact ⟨facts,cause,seed,by simp [stored],kind,issued⟩

/-- The tokens that a rotation of `user` for `cause` has to revoke. `older` is
    the journal before it. A token that is issued under an older password may
    itself be younger than the rotation, if a refresh was under way. -/
inductive Outdated (S : AppState) (older : List Event) (cause : Cause) (user : Uuid)
    (claims : Claims) : Prop where
  | password {facts : AuthFacts} {first : Cause} {seed : Bytes}
      (stored : .stored first facts seed ∈ older) (kind : facts.kind = .password)
      (owner : facts.userUuid = user) (issued : IssuedUnder S facts claims.custom)
  | signed (signed : .signed claims ∈ older) (names : claims.custom.sub = user.hyphenated)
      (method : claims.custom.authMethod = some CredentialKind.password.asStr)
  | oauth (reset : cause = .destructiveReset) (names : claims.custom.sub = user.hyphenated)
      (method : claims.custom.authMethod = some CredentialKind.oauth.asStr)

theorem verifier_of_password (kind : facts.kind = .password) :
    ∃ verifier, facts.verifier? = some verifier := by
  obtain ⟨user,project,credential⟩ := facts
  cases credential with
  | password _ _ verifier => exact ⟨verifier,rfl⟩
  | oauth _ _ => cases kind

theorem not_live_of_superseded {newer : List Event} {cause first : Cause} {rotated : AuthFacts}
    {seed seed' : Bytes} (undisturbed : Undisturbed (newer ++ .stored cause rotated seed :: older))
    (stored : .stored first facts seed' ∈ older) (kind : facts.kind = .password)
    (owner : facts.userUuid = rotated.userUuid) :
    ¬ Live (newer ++ .stored cause rotated seed :: older) facts := by
  intro live
  rw [Live, kind] at live
  obtain ⟨last,held,newest⟩ := live
  obtain ⟨verifier,password⟩ := verifier_of_password kind
  exact newestStored_ne_superseded undisturbed stored owner password last held newest

theorem issuedUnder_binding (env : Environment S) {claims : CustomClaims}
    {context : AuthContext} (issued : IssuedUnder S facts claims)
    (parsed : AuthContext.fromClaims S claims = .ok context) :
    facts.authBinding S.primitives S.enclaveKey = .ok ⟨context.authBinding⟩ := by
  obtain ⟨_,_,_,_,decoded⟩ := AuthContext.fromClaims_ok parsed
  obtain ⟨_,_,_,binding,bound,encoded⟩ := issued
  rw [encoded, Option.bind_some, env.base64Decode_base64Encode] at decoded
  have same : binding.bytes = context.authBinding :=
    Octets.bytes_injective (Option.some.inj decoded)
  rw [bound, ← same]

/-- Once a password change or a destructive reset is committed, no request that
    starts afterwards gets in with an outdated token. -/
theorem rotation_revokes_outdated_tokens (env : Environment S) (initial : Initial start)
    (run : Run (enclave S) ⟨start,[]⟩ c) {newer older : List Event} {cause : Cause}
    {rotated : AuthFacts} {seed : Bytes}
    (committed : c.shared.journal = newer ++ .stored cause rotated seed :: older)
    (later : Run (enclave S) c d) (undisturbed : Undisturbed d.shared.journal)
    (free : MacCollisionFree S.primitives S.enclaveKey (· ∈ credentials d.shared.journal))
    {i : Nat} {request : Request} {result : Outcome ApiError Reply} (late : c.threads.length ≤ i)
    (finished : d.threads[i]? = some (request,.done result)) (only : request.byTokenOnly = true)
    {token : Text} {claims : Claims} (given : request.token? = some token)
    (verified : S.es256kValidate token = some claims)
    (outdated : Outdated S older cause rotated.userUuid claims) :
    ∃ fault, result = .error fault := by
  cases result with
  | error fault => exact ⟨fault,rfl⟩
  | ok reply =>
    exfalso
    have inv := reachable_invariant env initial run
    obtain ⟨who,token',_,given',claims',held,verified',names,parsed,moment,since,sub,
      facts,sealed,wrapped,agree,live⟩ :=
      (late_thread_served env initial run later late finished).2 only
    obtain rfl := Option.some.inj (given.symm.trans given')
    obtain rfl := Option.some.inj (verified.symm.trans verified')
    obtain ⟨format,_,method,_,_⟩ := AuthContext.fromClaims_ok parsed
    obtain ⟨between,rfl⟩ := since
    have calm := undisturbed.suffix sub
    replace live := live calm.untampered
    rw [committed, ← List.append_assoc] at calm live sub wrapped
    -- a password of the rotated account that was stored earlier cannot have opened the wrap
    have refute : ∀ {other first seed'}, .stored first other seed' ∈ older →
        other.kind = .password → other.userUuid = rotated.userUuid →
        IssuedUnder S other claims.custom → False := by
      intro other first seed' stored kind owner issued
      have inJournal : .stored first other seed' ∈ d.shared.journal := sub.mem (by simp [stored])
      have same : other = facts := free.binding_injective (mem_credentials inJournal rfl)
        (mem_credentials (sub.mem wrapped) rfl) (issuedUnder_binding env issued parsed)
          agree.binding
      subst same
      exact not_live_of_superseded calm stored kind owner live
    cases outdated with
    | password stored kind owner issued => exact refute stored kind owner issued
    | signed signed namesUser password =>
      have justified := inv.justified
      have backed := (inv.consistent (calm.untampered.suffix ⟨between,by simp [committed]⟩)).backed
      rw [committed] at justified backed
      obtain ⟨other,first,seed',stored,kind,issued⟩ := signed_password_was_stored
        (justified_append justified).2 (justified_append backed).2 signed format password
      exact refute stored kind (Octets.hyphenated_injective (issued.1.symm.trans namesUser)) issued
    | oauth reset namesUser oauth =>
      have kind : facts.kind = .oauth := by
        refine CredentialKind.asStr_injective ?_
        rw [agree.kind, AuthMethod.credentialKind_asStr]
        exact Option.some.inj (method.symm.trans oauth)
      have owner : rotated.userUuid = facts.userUuid := by
        rw [namesUser, env.parseUuid_hyphenated] at names
        exact (Option.some.inj names).trans agree.user.symm
      rw [Live, kind] at live
      exact live ⟨rotated,seed,by simp [reset],owner⟩

end

def issuedTokens : Outcome ApiError Reply → Option IssuedTokens
  | .ok (.tokens issued) => some issued
  | _ => none

def sampleAccessToken : Text := ((issuedTokens afterRegister.1).map (·.accessToken)).getD []

def sampleRefreshToken : Text := ((issuedTokens afterRegister.1).map (·.refreshToken)).getD []

def sampleChange : Request := .changePassword (some ("Bearer ".toList ++ sampleAccessToken))
  "old" "new" (sampleDraws 8)

@[irreducible] def afterChange : Outcome ApiError Reply × World :=
  serveAlone transparentState sampleChange afterRegister.2

def sampleRefresh : Request := .refresh sampleRefreshToken (sampleDraws 9)

@[irreducible] def afterRefresh : Outcome ApiError Reply × World :=
  serveAlone transparentState sampleRefresh afterChange.2

theorem admitted_of_signed {S : AppState} {request : Request} {w : World} {claims : Claims}
    (verified : request.token?.bind S.es256kValidate = some claims)
    (signed : .signed claims ∈ w.journal) : (enclave S).admits w request := by
  intro token other given validated
  rw [given, Option.bind_some, validated] at verified
  cases verified
  exact signed

def sampleClaims (aud : Text) : Claims :=
  contextClaims transparentState ⟨sampleUuid 7,none,none,42⟩
    (.new .password 42 (((passwordFacts ⟨sampleUuid 7,some "a@b.c".toList,none,42⟩
      (transparentState.generateHash "old" [7])).authBinding transparentPrimitives []).toOption.elim
        (.filled 32 0) AuthBinding.bytes)) aud 86400 0

theorem changed_run : Run (enclave transparentState) ⟨sampleStart,[]⟩
    ⟨afterChange.2,[(sampleRegister,.done afterRegister.1),
      (sampleChange,.done afterChange.1)]⟩ := by
  have verified : sampleChange.token?.bind transparentState.es256kValidate =
      some (sampleClaims userAccess) := by decide +kernel
  have signed : .signed (sampleClaims userAccess) ∈ afterRegister.2.journal := by decide +kernel
  unfold afterChange
  exact registered_run.trans (run_finish (admitted_of_signed verified signed))

/-- A refresh with a token from before a password change. -/
theorem refresh_after_change_fails : ∃ fault, afterRefresh.1 = .error fault := by
  have verified : transparentState.es256kValidate sampleRefreshToken =
      some (sampleClaims userRefresh) := by decide +kernel
  have refreshed : Run (enclave transparentState)
      ⟨afterChange.2,[(sampleRegister,.done afterRegister.1),(sampleChange,.done afterChange.1)]⟩
      ⟨afterRefresh.2,[(sampleRegister,.done afterRegister.1),(sampleChange,.done afterChange.1),
        (sampleRefresh,.done afterRefresh.1)]⟩ := by
    have signed : .signed (sampleClaims userRefresh) ∈ afterChange.2.journal := by decide +kernel
    unfold afterRefresh
    exact run_finish (admitted_of_signed verified signed)
  have committed : afterChange.2.journal = afterChange.2.journal.take 3 ++
      .stored .passwordChange (passwordFacts ⟨sampleUuid 7,some "a@b.c".toList,none,42⟩
        (transparentState.generateHash "new" [8])) [7,7,7] :: afterChange.2.journal.drop 4 := by
    decide +kernel
  exact rotation_revokes_outdated_tokens transparentState_environment
    sampleStart_initial changed_run
    committed refreshed ⟨by unfold Untampered; decide +kernel,by decide +kernel⟩
    (collisionFree_of_bindings (by decide +kernel)) (Nat.le_refl 2) rfl rfl rfl verified
    (.signed (by decide +kernel) (by decide +kernel) (by decide +kernel))

end OpenSecret

import OpenSecret.Credentials.Handlers
import OpenSecret.Foundation.Chronicle

/-!
What a journal can say. Every event is backed by the events before it, which
holds even while the tables are rewritten from outside. The accounts follow from
the journal as long as nobody has tampered.
-/
namespace OpenSecret
open Framing Chronicle List

/-- What is assumed of the environment: ideal authenticated encryption, parsers
    that read back what was printed, and a hash that its password verifies. -/
structure Environment (S : AppState) : Prop where
  aead : S.primitives.IdealAead
  parseUuid_hyphenated : ∀ u : Uuid, S.parseUuid u.hyphenated = some u
  base64Decode_base64Encode : ∀ bytes, S.base64Decode (S.base64Encode bytes) = some bytes
  verifyPassword_generateHash : ∀ password salt,
    S.verifyPassword password (S.generateHash password salt) = true

/-- A state that meets the assumptions and hides nothing: hashes show the
    password, tokens the claims that tell them apart. -/
def transparentState : AppState where
  primitives := transparentPrimitives
  enclaveKey := []
  secretKey := .ok (.filled 32 0)
  generateHash password salt := password ++ '$' :: Text.lowerHex salt
  verifyPassword password verifier := (password ++ ['$']).isPrefixOf verifier
  generateResetHash secret := secret
  utf8ErrorText _ := []
  citextLower := Text.toAsciiLowercase
  parseUuid text := do
    let bytes ← Text.unhex (text.filter (· ≠ '-'))
    if size : bytes.length = 16 then some ⟨bytes,size⟩ else none
  base64Encode := Text.lowerHex
  base64Decode := Text.unhex
  es256kToken claims := some (claims.custom.sub ++ claims.custom.authBinding.getD [] ++
    claims.custom.aud.getD [])
  es256kValidate token := some ⟨⟨token.take 36,some (token.drop 100),none,none,
    some userTokenFormatV2,some AuthMethod.password.asStr,some 42,
    some ((token.drop 36).take 64)⟩,some 86340⟩
  isAlphanumeric := Char.isAlphanum
  parsesAsUrl _ := true
  accessTokenMaxage := 1440
  refreshTokenMaxage := 1

theorem transparentState_environment : Environment transparentState where
  aead := transparentPrimitives_ideal
  parseUuid_hyphenated u := by
    simp only [transparentState, Octets.filter_hyphenated, Text.unhex_lowerHex,
      bind, Option.bind, u.size,
      dite_true]
  base64Decode_base64Encode := Text.unhex_lowerHex
  verifyPassword_generateHash password salt := by
    simp [transparentState]

def AuthFacts.verifier? (facts : AuthFacts) : Option Text :=
  match facts.credential with
  | .password _ _ verifier => some verifier
  | .oauth _ _ => none

def Event.verifier? : Event → Option Text
  | .stored _ facts _ => facts.verifier?
  | _ => none

def storedVerifiers (journal : List Event) : List Text := journal.filterMap Event.verifier?

def newestStored : List Event → Uuid → Option (Cause × AuthFacts × Bytes)
  | [],_ => none
  | .stored cause facts seed :: older,user =>
    if facts.userUuid = user then some (cause,facts,seed) else newestStored older user
  | _ :: older,user => newestStored older user

def Untampered (journal : List Event) : Prop := Event.tampered ∉ journal

variable {older journal newer : List Event} {cause' : Cause} {seed' : Bytes}

theorem Untampered.suffix (h : Untampered journal) (sub : older <:+ journal) : Untampered older :=
  fun mem => h (sub.mem mem)

def Event.concerns : Event → Option Uuid
  | .wrapped facts _ _ => some facts.userUuid
  | .stored _ facts _ => some facts.userUuid
  | _ => none

def WasReset (journal : List Event) (user : Uuid) : Prop :=
  ∃ facts seed, .stored .destructiveReset facts seed ∈ journal ∧ facts.userUuid = user

theorem WasReset.mono {user : Uuid} (h : WasReset older user) (sub : older <:+ journal) :
    WasReset journal user := by
  obtain ⟨facts,seed,mem,same⟩ := h
  exact ⟨facts,seed,sub.mem mem,same⟩

/-- Everything sealed for a user so far is this seed, unless a reset dropped it. -/
def OneSeed (journal : List Event) (user : Uuid) (seed : Bytes) : Prop :=
  ∀ facts held sealed, .wrapped facts held sealed ∈ journal → facts.userUuid = user →
    held = seed ∨ WasReset journal user

/-- Nobody tampered and no verifier was stored twice. -/
structure Undisturbed (journal : List Event) : Prop where
  untampered : Untampered journal
  fresh : (storedVerifiers journal).Nodup

theorem Undisturbed.suffix (h : Undisturbed journal) (sub : older <:+ journal) :
    Undisturbed older := by
  obtain ⟨newer,rfl⟩ := sub
  refine ⟨h.untampered.suffix (suffix_append newer older),?_⟩
  have fresh := h.fresh
  rw [storedVerifiers, filterMap_append, nodup_append] at fresh
  exact fresh.2.1

theorem newestStored_append (newer older : List Event) (user : Uuid) :
    newestStored (newer ++ older) user =
      (newestStored newer user).or (newestStored older user) := by
  induction newer with
  | nil => rfl
  | cons event newer ih =>
    cases event with
    | stored cause facts seed =>
      simp only [cons_append, newestStored]
      split
      · rfl
      · exact ih
    | _ => exact ih

theorem newestStored_some {user : Uuid} {cause : Cause} {facts : AuthFacts}
    {seed : Bytes} (h : newestStored journal user = some (cause,facts,seed)) :
    .stored cause facts seed ∈ journal ∧ facts.userUuid = user := by
  induction journal with
  | nil => cases h
  | cons event older ih =>
    cases event with
    | stored c f s =>
      simp only [newestStored] at h
      split at h
      · cases h
        exact ⟨by simp,by assumption⟩
      · exact ⟨mem_cons_of_mem _ (ih h).1,(ih h).2⟩
    | _ => exact ⟨mem_cons_of_mem _ (ih h).1,(ih h).2⟩

theorem newestStored_eq_none {user : Uuid}
    (none_stored : ∀ cause facts seed, .stored cause facts seed ∈ journal → facts.userUuid ≠ user) :
    newestStored journal user = none := by
  cases found : newestStored journal user with
  | none => rfl
  | some entry =>
    obtain ⟨mem,same⟩ := newestStored_some found
    exact absurd same (none_stored _ _ _ mem)

theorem mem_storedVerifiers {cause : Cause} {facts : AuthFacts} {seed : Bytes}
    {verifier : Text} (mem : .stored cause facts seed ∈ journal)
    (password : facts.verifier? = some verifier) : verifier ∈ storedVerifiers journal :=
  mem_filterMap.mpr ⟨_,mem,password⟩

/-- A verifier that is not drawn twice cannot be stored on both sides of a cut. -/
theorem Undisturbed.stored_once (h : Undisturbed (newer ++ older))
    {cause : Cause} {facts : AuthFacts} {seed : Bytes} {verifier : Text}
    (password : facts.verifier? = some verifier) (late : .stored cause facts seed ∈ newer)
    (early : .stored cause' facts seed' ∈ older) : False := by
  have fresh := h.fresh
  rw [storedVerifiers, filterMap_append, nodup_append] at fresh
  exact fresh.2.2 verifier (mem_storedVerifiers late password) verifier
    (mem_storedVerifiers early password) rfl

theorem newestStored_ne_superseded {cause : Cause} {facts facts' : AuthFacts} {seed : Bytes}
    {verifier : Text} (undisturbed : Undisturbed (newer ++ .stored cause facts seed :: older))
    (early : .stored cause' facts' seed' ∈ older) (same : facts'.userUuid = facts.userUuid)
    (password : facts'.verifier? = some verifier) (last : Cause) (held : Bytes) :
    newestStored (newer ++ .stored cause facts seed :: older) facts'.userUuid ≠
      some (last,facts',held) := by
  intro newest
  have split : newer ++ .stored cause facts seed :: older =
      (newer ++ [.stored cause facts seed]) ++ older := by simp
  have last_part : newestStored (newer ++ [.stored cause facts seed]) facts'.userUuid =
      some (last,facts',held) := by
    rw [newestStored_append, same] at newest ⊢
    simp only [newestStored, if_pos] at newest ⊢
    exact newest
  rw [split] at undisturbed
  exact undisturbed.stored_once password (newestStored_some last_part).1 early

section
variable (S : AppState)

def WrapValid (facts : AuthFacts) (seed sealed : Bytes) : Prop :=
  ∃ nonce binding, facts.authBinding S.primitives S.enclaveKey = .ok binding ∧
    encryptSeedV1 S.primitives S.enclaveKey nonce seed facts.userUuid facts.projectId facts.kind
      binding = .ok sealed

def IssuedUnder (facts : AuthFacts) (claims : CustomClaims) : Prop :=
  claims.sub = facts.userUuid.hyphenated ∧ claims.projectId = some facts.projectId ∧
    claims.authMethod = some facts.kind.asStr ∧
    ∃ binding, facts.authBinding S.primitives S.enclaveKey = .ok binding ∧
      claims.authBinding = some (S.base64Encode binding.bytes.bytes)

def Presented (facts : AuthFacts) (presented : Text) : Prop :=
  match facts.credential with
  | .password _ _ verifier => S.verifyPassword presented verifier = true
  | .oauth _ subject => presented = subject

/-- What stands behind an event however the tables have been rewritten. -/
def Justifies (older : List Event) : Event → Prop
  | .wrapped facts seed sealed => WrapValid S facts seed sealed
  | .verified facts presented => Presented S facts presented
  | .signed claims => claims.custom.tokenFormat = some userTokenFormatV2 →
      ∃ facts presented, .verified facts presented ∈ older ∧ IssuedUnder S facts claims.custom
  | _ => True

/-- A password is only ever checked against a verifier that was committed. -/
def Grounds (older : List Event) : Event → Prop
  | .verified facts _ => facts.kind = .password →
      ∃ cause seed, .stored cause facts seed ∈ older
  | _ => True

/-- Bytes that open under any key of the enclave were sealed by it. -/
def Genuine (journal : List Event) (bytes : Bytes) : Prop :=
  ∀ user project kind binding seed,
    decryptSeedV1 S.primitives S.enclaveKey bytes user project kind binding = .ok seed →
      ∃ facts held, .wrapped facts held bytes ∈ journal

variable {S}

theorem Genuine.mono {older journal : List Event} {bytes : Bytes} (h : Genuine S older bytes)
    (sub : older <:+ journal) : Genuine S journal bytes := by
  intro user project kind binding seed opens
  obtain ⟨facts,held,mem⟩ := h user project kind binding seed opens
  exact ⟨facts,held,sub.mem mem⟩

variable {facts : AuthFacts} {seed sealed : Bytes} {binding : AuthBinding}

theorem wrapValid_only (env : Environment S) {opened : Bytes}
    (valid : WrapValid S facts seed sealed) {user : Uuid} {project : Int32} {kind : CredentialKind}
    (opens : decryptSeedV1 S.primitives S.enclaveKey sealed user project kind binding =
      .ok opened) :
    facts.userUuid = user ∧ facts.projectId = project ∧ facts.kind = kind ∧
      facts.authBinding S.primitives S.enclaveKey = .ok binding ∧ opened = seed := by
  obtain ⟨nonce,bound,bindingOk,sealing⟩ := valid
  obtain ⟨rfl,rfl,rfl,rfl,rfl⟩ := decryptSeedV1_only env.aead sealing opens
  exact ⟨rfl,rfl,rfl,bindingOk,rfl⟩

theorem wrapValid_opens (env : Environment S) (valid : WrapValid S facts seed sealed)
    (bound : facts.authBinding S.primitives S.enclaveKey = .ok binding) :
    decryptSeedV1 S.primitives S.enclaveKey sealed facts.userUuid
      facts.projectId facts.kind binding =
      .ok seed := by
  obtain ⟨nonce,bound',bindingOk,sealing⟩ := valid
  have same : binding = bound' := Except.ok.inj (bound.symm.trans bindingOk)
  rw [same]
  exact decryptSeedV1_encryptSeedV1 env.aead sealing

end

end OpenSecret

import OpenSecret.Encrypt
import OpenSecret.Foundation.Text

/-!
Authentication bindings and seed wraps of `seed_wrapping.rs`. A binding is a
MAC over the facts of one credential; a wrap is an AEAD envelope keyed by the
binding and carrying the account and the binding as associated data.
-/
namespace OpenSecret
open Framing List

def authBindingMacInfo : Bytes := utf8 "os.auth-binding-mac.v1"
def credentialLookupMacInfo : Bytes := utf8 "os.credential-lookup-mac.v1"
def passwordResetCodeMacInfo : Bytes := utf8 "os.password-reset-code-mac.v1"
def seedWrapRootInfo : Bytes := utf8 "os.seed-wrap-root.v1"
def seedWrapAeadKeyInfo : Bytes := utf8 "os.seed-wrap-aead-key.v1"

def passwordAuthBindingDomain : Text := "os.password-auth-binding.v1"
def passwordLookupDomain : Text := "os.password-lookup.v1"
def passwordResetCodeDomain : Text := "os.password-reset-code.v1"
def oauthAuthBindingDomain : Text := "os.oauth-auth-binding.v1"
def oauthLookupDomain : Text := "os.oauth-lookup.v1"
def seedWrapDomain : Text := "os.seed-wrap.v1"

def seedWrapVersionV1 : Int16 := 1

inductive CredentialKind where
  | password
  | oauth
  deriving DecidableEq, Repr

def CredentialKind.asStr : CredentialKind → Text
  | .password => "password"
  | .oauth => "oauth"

inductive PasswordLoginIdentifierKind where
  | email
  | guestUuid
  deriving DecidableEq, Repr

def PasswordLoginIdentifierKind.asStr : PasswordLoginIdentifierKind → Text
  | .email => "email"
  | .guestUuid => "guest_uuid"

theorem CredentialKind.asStr_injective {k l : CredentialKind} (same : k.asStr = l.asStr) :
    k = l := by
  cases k <;> cases l <;> first | rfl | exact absurd same (by decide)

theorem PasswordLoginIdentifierKind.asStr_injective {k l : PasswordLoginIdentifierKind}
    (same : k.asStr = l.asStr) : k = l := by
  cases k <;> cases l <;> first | rfl | exact absurd same (by decide)

def normalizeEmailLoginIdentifier (email : Text) : Text := Text.toAsciiLowercase (Text.trim email)

/-- The hyphenated form, groups of 4, 2, 2, 2 and 6 bytes. -/
def Octets.hyphenated (u : Uuid) : Text :=
  let hex := fun start len => Text.lowerHex ((u.bytes.drop start).take len)
  hex 0 4 ++ '-' :: hex 4 2 ++ '-' :: hex 6 2 ++ '-' :: hex 8 2 ++ '-' :: hex 10 6

theorem Octets.filter_hyphenated (u : Uuid) :
    u.hyphenated.filter (· ≠ '-') = Text.lowerHex u.bytes := by
  have plain : ∀ bytes, (Text.lowerHex bytes).filter (· ≠ '-') = Text.lowerHex bytes := fun bytes =>
    filter_eq_self.mpr fun c mem =>
      decide_eq_true fun same => Text.not_mem_lowerHex rfl bytes (same ▸ mem)
  have joined : ∀ a b, Text.lowerHex a ++ Text.lowerHex b = Text.lowerHex (a ++ b) :=
    fun a b => flatMap_append.symm
  have whole : u.bytes.take 4 ++ ((u.bytes.drop 4).take 2 ++ ((u.bytes.drop 6).take 2 ++
      ((u.bytes.drop 8).take 2 ++ (u.bytes.drop 10).take 6))) = u.bytes := by
    obtain ⟨bytes,size⟩ := u
    match bytes, size with
    | [_,_,_,_,_,_,_,_,_,_,_,_,_,_,_,_], _ => rfl
  simp only [Octets.hyphenated, drop_zero, append_assoc, cons_append, filter_append,
    filter_cons, plain]
  simp only [ne_eq, not_true, decide_false, Bool.false_eq_true, if_false, joined, whole]

theorem Octets.hyphenated_injective {u v : Uuid} (same : u.hyphenated = v.hyphenated) : u = v := by
  have hex : Text.lowerHex u.bytes = Text.lowerHex v.bytes := by
    rw [← u.filter_hyphenated, same, v.filter_hyphenated]
  have bytes := congrArg Text.unhex hex
  rw [Text.unhex_lowerHex, Text.unhex_lowerHex] at bytes
  exact Octets.bytes_injective (Option.some.inj bytes)

def normalizeGuestLoginIdentifier (userUuid : Uuid) : Text := userUuid.hyphenated

structure AuthBinding where
  bytes : Octets 32
  deriving DecidableEq

structure CredentialLookupHash where
  bytes : Octets 32
  deriving DecidableEq

section
variable (P : Primitives)

def hmacWithRootDomainKey (rootKey keyInfo message : Bytes) : Outcome EncryptError (Octets 32) := do
  let macKey ← deriveKey P rootKey keyInfo
  .ofOption .keyDerivationFailed (P.hmacSha256 macKey.bytes message)

/-- The shape all MACs of this file share: encode the facts, then authenticate them. -/
def macOfFacts (rootKey keyInfo : Bytes) (domain : Text) (fields : List Field) :
    Outcome EncryptError (Octets 32) := do
  let facts ← canonical domain fields
  hmacWithRootDomainKey P rootKey keyInfo facts

def computePasswordAuthBinding (rootKey : Bytes) (projectId : Int32) (userUuid : Uuid)
    (loginIdentifierKind : PasswordLoginIdentifierKind)
    (normalizedLoginIdentifier decryptedPasswordVerifier : Text) :
    Outcome EncryptError AuthBinding :=
  AuthBinding.mk <$> macOfFacts P rootKey authBindingMacInfo passwordAuthBindingDomain
    [.i32 projectId,.uuid userUuid,.str loginIdentifierKind.asStr,.str normalizedLoginIdentifier,
      .str decryptedPasswordVerifier]

def computeOauthAuthBinding (rootKey : Bytes) (projectId : Int32) (userUuid : Uuid)
    (provider providerUserId : Text) : Outcome EncryptError AuthBinding :=
  AuthBinding.mk <$> macOfFacts P rootKey authBindingMacInfo oauthAuthBindingDomain
    [.i32 projectId,.uuid userUuid,.str provider,.str providerUserId]

def passwordCredentialLookupHash (rootKey : Bytes) (projectId : Int32) (userUuid : Uuid) :
    Outcome EncryptError CredentialLookupHash :=
  CredentialLookupHash.mk <$> macOfFacts P rootKey credentialLookupMacInfo passwordLookupDomain
    [.i32 projectId,.uuid userUuid]

def oauthCredentialLookupHash (rootKey : Bytes) (projectId : Int32) (userUuid : Uuid)
    (provider providerUserId : Text) : Outcome EncryptError CredentialLookupHash :=
  CredentialLookupHash.mk <$> macOfFacts P rootKey credentialLookupMacInfo oauthLookupDomain
    [.i32 projectId,.uuid userUuid,.str provider,.str providerUserId]

def passwordResetCodeMac (rootKey : Bytes) (projectId : Int32) (userUuid : Uuid)
    (alphanumericCode : Text) : Outcome EncryptError (Octets 32) :=
  macOfFacts P rootKey passwordResetCodeMacInfo passwordResetCodeDomain
    [.i32 projectId,.uuid userUuid,.str alphanumericCode]

def deriveSeedWrapAeadKey (rootKey : Bytes) (authBinding : AuthBinding) :
    Outcome EncryptError AeadKey := do
  let seedWrapRootKey ← deriveKey P rootKey seedWrapRootInfo
  deriveKeyWithSalt P seedWrapRootKey.bytes authBinding.bytes.bytes seedWrapAeadKeyInfo

def seedWrapAadV1 (userUuid : Uuid) (projectId : Int32) (credentialKind : CredentialKind)
    (authBinding : AuthBinding) : Outcome EncryptError Bytes :=
  canonical seedWrapDomain
    [.uuid userUuid,.i32 projectId,.str credentialKind.asStr,.i16 seedWrapVersionV1,
      .bytes authBinding.bytes.bytes]

def encryptSeedV1 (rootKey : Bytes) (nonce : Nonce) (plaintextSeed : Bytes) (userUuid : Uuid)
    (projectId : Int32) (credentialKind : CredentialKind) (authBinding : AuthBinding) :
    Outcome EncryptError Bytes := do
  let aeadKey ← deriveSeedWrapAeadKey P rootKey authBinding
  let aad ← seedWrapAadV1 userUuid projectId credentialKind authBinding
  encryptAeadV1 P aeadKey nonce plaintextSeed aad

def decryptSeedV1 (rootKey encryptedSeed : Bytes) (userUuid : Uuid) (projectId : Int32)
    (credentialKind : CredentialKind) (authBinding : AuthBinding) : Outcome EncryptError Bytes := do
  let aeadKey ← deriveSeedWrapAeadKey P rootKey authBinding
  let aad ← seedWrapAadV1 userUuid projectId credentialKind authBinding
  decryptAeadV1 P aeadKey encryptedSeed aad

end

/-- What a credential proves about the person who presents it. -/
inductive Credential where
  | password (kind : PasswordLoginIdentifierKind) (identifier verifier : Text)
  | oauth (provider providerUserId : Text)
  deriving DecidableEq

structure AuthFacts where
  userUuid : Uuid
  projectId : Int32
  credential : Credential
  deriving DecidableEq

namespace AuthFacts

def kind (facts : AuthFacts) : CredentialKind :=
  match facts.credential with
  | .password .. => .password
  | .oauth .. => .oauth

def domain (facts : AuthFacts) : Text :=
  match facts.kind with
  | .password => passwordAuthBindingDomain
  | .oauth => oauthAuthBindingDomain

def fields (facts : AuthFacts) : List Field :=
  .i32 facts.projectId :: .uuid facts.userUuid ::
    match facts.credential with
    | .password kind identifier verifier => [.str kind.asStr,.str identifier,.str verifier]
    | .oauth provider providerUserId => [.str provider,.str providerUserId]

def message (facts : AuthFacts) : Outcome EncryptError Bytes := canonical facts.domain facts.fields

def authBinding (P : Primitives) (rootKey : Bytes) (facts : AuthFacts) :
    Outcome EncryptError AuthBinding :=
  match facts.credential with
  | .password kind identifier verifier =>
    computePasswordAuthBinding P rootKey facts.projectId facts.userUuid kind identifier verifier
  | .oauth provider providerUserId =>
    computeOauthAuthBinding P rootKey facts.projectId facts.userUuid provider providerUserId

theorem authBinding_eq (P : Primitives) (rootKey : Bytes) (facts : AuthFacts) :
    facts.authBinding P rootKey =
      AuthBinding.mk <$> macOfFacts P rootKey authBindingMacInfo facts.domain facts.fields := by
  obtain ⟨user,project,credential⟩ := facts
  cases credential <;> rfl

theorem message_injective {facts other : AuthFacts} {m : Bytes} (h : facts.message = .ok m)
    (h' : other.message = .ok m) : facts = other := by
  obtain ⟨sameDomain,sameFields⟩ := canonical_injective h h'
  obtain ⟨user,project,credential⟩ := facts
  obtain ⟨user',project',credential'⟩ := other
  cases credential <;> cases credential' <;>
    simp only [domain, kind, fields, List.cons.injEq, Field.i32.injEq, Field.uuid.injEq,
      Field.str.injEq, and_true] at sameDomain sameFields <;>
    first
    | exact absurd sameDomain (by decide)
    | skip
  case password.password =>
    obtain ⟨rfl,rfl,sameKind,rfl,rfl⟩ := sameFields
    rw [PasswordLoginIdentifierKind.asStr_injective sameKind]
  case oauth.oauth =>
    obtain ⟨rfl,rfl,rfl,rfl⟩ := sameFields
    rfl

end AuthFacts

/-- The MAC has no collision among the credentials that occur. Asked of all
    credentials at once this is impossible, a tag being 32 bytes. -/
def MacCollisionFree (P : Primitives) (rootKey : Bytes) (occurs : AuthFacts → Prop) : Prop :=
  ∀ facts other, occurs facts → occurs other → ∀ m m' tag,
    facts.message = .ok m → other.message = .ok m' →
    hmacWithRootDomainKey P rootKey authBindingMacInfo m = .ok tag →
    hmacWithRootDomainKey P rootKey authBindingMacInfo m' = .ok tag → m = m'

variable {P : Primitives} {rootKey : Bytes}

variable {facts : AuthFacts} {binding : AuthBinding}

theorem AuthFacts.authBinding_ok (h : facts.authBinding P rootKey = .ok binding) :
    ∃ m, facts.message = .ok m ∧
      hmacWithRootDomainKey P rootKey authBindingMacInfo m = .ok binding.bytes := by
  rw [authBinding_eq, map_eq_pure_bind, Outcome.bind_eq_ok] at h
  obtain ⟨tag,mac,same⟩ := h
  cases same
  exact Outcome.bind_eq_ok.mp mac

theorem MacCollisionFree.binding_injective {occurs : AuthFacts → Prop}
    (free : MacCollisionFree P rootKey occurs) {other : AuthFacts}
    (here : occurs facts) (there : occurs other) (h : facts.authBinding P rootKey = .ok binding)
    (h' : other.authBinding P rootKey = .ok binding) : facts = other := by
  obtain ⟨m,encoded,mac⟩ := AuthFacts.authBinding_ok h
  obtain ⟨m',encoded',mac'⟩ := AuthFacts.authBinding_ok h'
  have same := free facts other here there m m' binding.bytes encoded encoded' mac mac'
  rw [← same] at encoded'
  exact AuthFacts.message_injective encoded encoded'

theorem AuthFacts.authBinding_of_mac {m : Bytes} {tag : Octets 32} (encoded : facts.message = .ok m)
    (mac : hmacWithRootDomainKey P rootKey authBindingMacInfo m = .ok tag) :
    facts.authBinding P rootKey = .ok ⟨tag⟩ := by
  rw [authBinding_eq, map_eq_pure_bind, Outcome.bind_eq_ok]
  exact ⟨tag,Outcome.bind_eq_ok.mpr ⟨m,encoded,mac⟩,rfl⟩

theorem collisionFree_of_bindings {facts : List AuthFacts}
    (distinct : ∀ f ∈ facts, ∀ g ∈ facts, f.authBinding P rootKey =
      g.authBinding P rootKey → f = g) :
    MacCollisionFree P rootKey (· ∈ facts) := by
  intro f g here there m m' tag encoded encoded' mac mac'
  have same := distinct f here g there
    ((f.authBinding_of_mac encoded mac).trans (g.authBinding_of_mac encoded' mac').symm)
  rw [same] at encoded
  exact Except.ok.inj (encoded.symm.trans encoded')

theorem seedWrapAadV1_injective {user user' : Uuid} {project project' : Int32}
    {kind kind' : CredentialKind} {binding' : AuthBinding} {aad : Bytes}
    (h : seedWrapAadV1 user project kind binding = .ok aad)
    (h' : seedWrapAadV1 user' project' kind' binding' = .ok aad) :
    user = user' ∧ project = project' ∧ kind = kind' ∧ binding = binding' := by
  have same := (canonical_injective h h').2
  simp only [List.cons.injEq, Field.uuid.injEq, Field.i32.injEq, Field.str.injEq,
    Field.bytes.injEq, true_and, and_true] at same
  obtain ⟨rfl,rfl,sameKind,sameBytes⟩ := same
  exact ⟨rfl,rfl,CredentialKind.asStr_injective sameKind,
    congrArg AuthBinding.mk (Octets.bytes_injective sameBytes)⟩

section
variable {nonce : Nonce} {seed wrapped opened : Bytes} {user user' : Uuid}
  {project project' : Int32} {kind kind' : CredentialKind} {binding binding' : AuthBinding}

theorem encryptSeedV1_ok
    (h : encryptSeedV1 P rootKey nonce seed user project kind binding = .ok wrapped) :
    ∃ key aad, deriveSeedWrapAeadKey P rootKey binding = .ok key ∧
      seedWrapAadV1 user project kind binding = .ok aad ∧
      encryptAeadV1 P key nonce seed aad = .ok wrapped := by
  simp only [encryptSeedV1, Outcome.bind_eq_ok] at h
  obtain ⟨key,derived,aad,encoded,sealing⟩ := h
  exact ⟨key,aad,derived,encoded,sealing⟩

theorem decryptSeedV1_ok
    (h : decryptSeedV1 P rootKey wrapped user project kind binding = .ok opened) :
    ∃ key aad, deriveSeedWrapAeadKey P rootKey binding = .ok key ∧
      seedWrapAadV1 user project kind binding = .ok aad ∧
      decryptAeadV1 P key wrapped aad = .ok opened := by
  simp only [decryptSeedV1, Outcome.bind_eq_ok] at h
  obtain ⟨key,derived,aad,encoded,opening⟩ := h
  exact ⟨key,aad,derived,encoded,opening⟩

theorem decryptSeedV1_encryptSeedV1 (ideal : P.IdealAead)
    (h : encryptSeedV1 P rootKey nonce seed user project kind binding = .ok wrapped) :
    decryptSeedV1 P rootKey wrapped user project kind binding = .ok seed := by
  obtain ⟨key,aad,derived,encoded,sealing⟩ := encryptSeedV1_ok h
  simp only [decryptSeedV1, Outcome.bind_eq_ok]
  exact ⟨key,derived,aad,encoded,decryptAeadV1_opens ideal sealing⟩

/-- A wrap opens under the account, the kind and the binding it was made for
    and no other; nothing is assumed of the MAC or of key derivation. -/
theorem decryptSeedV1_only (ideal : P.IdealAead)
    (h : encryptSeedV1 P rootKey nonce seed user project kind binding = .ok wrapped)
    (opens : decryptSeedV1 P rootKey wrapped user' project' kind' binding' = .ok opened) :
    user' = user ∧ project' = project ∧ kind' = kind ∧ binding' = binding ∧ opened = seed := by
  obtain ⟨key,aad,derived,encoded,sealing⟩ := encryptSeedV1_ok h
  obtain ⟨key',aad',derived',encoded',opening⟩ := decryptSeedV1_ok opens
  obtain ⟨-,rfl,rfl⟩ := decryptAeadV1_only ideal sealing opening
  obtain ⟨rfl,rfl,rfl,rfl⟩ := seedWrapAadV1_injective encoded' encoded
  exact ⟨rfl,rfl,rfl,rfl,rfl⟩

end

theorem seed_opens_exactly_under_its_facts (ideal : P.IdealAead) (facts other : AuthFacts)
    (free : MacCollisionFree P rootKey (fun f => f = facts ∨ f = other))
    {binding binding' : AuthBinding} (bound : facts.authBinding P rootKey = .ok binding)
    (bound' : other.authBinding P rootKey = .ok binding') (nonce : Nonce) (seed : Bytes)
    {wrapped : Bytes} (wrap : encryptSeedV1 P rootKey nonce seed facts.userUuid facts.projectId
      facts.kind binding = .ok wrapped) :
    (∀ opened, decryptSeedV1 P rootKey wrapped other.userUuid other.projectId other.kind binding' =
      .ok opened ↔ other = facts ∧ opened = seed) ∧
    (other.kind ≠ facts.kind → ∀ user project kind opened,
      decryptSeedV1 P rootKey wrapped user project kind binding' ≠ .ok opened) := by
  have agree : binding' = binding → other = facts := by
    rintro rfl
    exact free.binding_injective (.inr rfl) (.inl rfl) bound' bound
  constructor
  · intro opened
    constructor
    · intro opens
      obtain ⟨-,-,-,same,rfl⟩ := decryptSeedV1_only ideal wrap opens
      exact ⟨agree same,rfl⟩
    · rintro ⟨rfl,rfl⟩
      have same : binding' = binding := Except.ok.inj (bound'.symm.trans bound)
      rw [same]
      exact decryptSeedV1_encryptSeedV1 ideal wrap
  · intro differ user project kind opened opens
    obtain ⟨-,-,-,same,-⟩ := decryptSeedV1_only ideal wrap opens
    exact differ (by rw [agree same])

def sampleUuid (n : UInt8) : Uuid := .filled 16 n

def samplePasswordFacts : AuthFacts :=
  ⟨sampleUuid 7,42,.password .email "a@b.c" "$argon2id$h"⟩

def sampleOauthFacts : AuthFacts := ⟨sampleUuid 7,42,.oauth "google" "sub"⟩

def sampleNonce : Nonce := .filled 12 0

theorem sample_facts_collision_free : MacCollisionFree transparentPrimitives []
    (fun f => f = samplePasswordFacts ∨ f = sampleOauthFacts) := by
  intro facts other here there m m' tag encoded encoded' mac mac'
  rcases here with rfl | rfl <;> rcases there with rfl | rfl
  · exact Except.ok.inj (encoded.symm.trans encoded')
  · cases encoded; cases encoded'
    exact absurd (mac.trans mac'.symm) (by decide)
  · cases encoded; cases encoded'
    exact absurd (mac.trans mac'.symm) (by decide)
  · exact Except.ok.inj (encoded.symm.trans encoded')

theorem password_wrap_closed_to_oauth :
    ∃ binding binding' wrapped,
      samplePasswordFacts.authBinding transparentPrimitives [] = .ok binding ∧
      sampleOauthFacts.authBinding transparentPrimitives [] = .ok binding' ∧
      encryptSeedV1 transparentPrimitives [] sampleNonce [1,2,3]
        (sampleUuid 7) 42 .password binding =
        .ok wrapped ∧
      (∀ opened, decryptSeedV1 transparentPrimitives [] wrapped (sampleUuid 7) 42 .oauth binding' =
        .ok opened ↔ sampleOauthFacts = samplePasswordFacts ∧ opened = [1,2,3]) ∧
      ∀ user project kind opened,
        decryptSeedV1 transparentPrimitives [] wrapped user project kind binding' ≠ .ok opened := by
  refine ⟨_,_,_,rfl,rfl,rfl,?_⟩
  obtain ⟨opens_iff,closed⟩ := seed_opens_exactly_under_its_facts transparentPrimitives_ideal
    samplePasswordFacts sampleOauthFacts sample_facts_collision_free rfl rfl sampleNonce [1,2,3] rfl
  exact ⟨opens_iff,closed (by decide)⟩

end OpenSecret

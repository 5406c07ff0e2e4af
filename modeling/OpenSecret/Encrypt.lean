import OpenSecret.Foundation.Framing

/-!
Key derivation, AES-256-GCM envelopes and the canonical byte encoding of
`encrypt.rs`. HKDF, HMAC and AES-GCM are parameters; the random nonce of each
encryption is an argument. `Aes256Gcm::new_from_slice` accepts every 32-byte
key, so its error branch is not modelled.
-/
namespace OpenSecret
open Framing List

structure Octets (n : Nat) where
  bytes : Bytes
  size : bytes.length = n
  deriving DecidableEq

theorem Octets.bytes_injective {n : Nat} {a b : Octets n} (same : a.bytes = b.bytes) : a = b := by
  cases a; cases b; simpa using same

def Octets.filled (n : Nat) (b : UInt8) : Octets n := ⟨replicate n b,length_replicate⟩

abbrev Uuid := Octets 16
abbrev AeadKey := Octets 32
abbrev Nonce := Octets 12

instance : LawfulBEq Uuid := inferInstance

inductive EncryptError where
  | failedToDecrypt
  | badData
  | kmsError (message : Text)
  | noContent
  | deserializationFailed (message : Text)
  | keyDerivationFailed
  deriving DecidableEq, Repr

def EncryptError.display : EncryptError → Text
  | .failedToDecrypt => "Failed to decrypt"
  | .badData => "Bad data"
  | .kmsError message => "KMS encryption failed: ".toList ++ message
  | .noContent => "No content to decrypt"
  | .deserializationFailed message => "Deserialization failed: ".toList ++ message
  | .keyDerivationFailed => "Key derivation failed"

/-- A call of the enclave returns, returns an error, or panics. -/
inductive Fault (ε : Type) where
  | panicked
  | error (e : ε)
  deriving DecidableEq, Repr

abbrev Outcome (ε α : Type) := Except (Fault ε) α

def Fault.map {ε ε' : Type} (f : ε → ε') : Fault ε → Fault ε'
  | .panicked => .panicked
  | .error e => .error (f e)

def Outcome.mapErr {ε ε' α : Type} (f : ε → ε') (x : Outcome ε α) : Outcome ε' α :=
  x.mapError (Fault.map f)

variable {ε α : Type} {x : Outcome ε α} {β : Type} {b : β} {rest other : Bytes}
  {domain : Text} {bytes : Bytes}

theorem mapError_eq_ok {ε' : Type} {f : ε → ε'} {x : Except ε α} {a : α} :
    x.mapError f = .ok a ↔ x = .ok a := by
  cases x <;> simp [Except.mapError]

@[simp] theorem Outcome.mapErr_eq_ok {ε' : Type} {f : ε → ε'} {a : α} :
    x.mapErr f = .ok a ↔ x = .ok a :=
  mapError_eq_ok

def Outcome.ofOption {ε α : Type} (e : ε) : Option α → Outcome ε α
  | some a => .ok a
  | none => .error (.error e)

@[simp] theorem Outcome.ofOption_eq_ok {e : ε} {x : Option α} {a : α} :
    Outcome.ofOption e x = .ok a ↔ x = some a := by
  cases x <;> simp [Outcome.ofOption]

theorem Outcome.ofOption_ne_panicked (e : ε) (x : Option α) :
    Outcome.ofOption e x ≠ .error .panicked := by
  cases x <;> simp [Outcome.ofOption]

theorem bind_eq_ok {x : Except ε α} {f : α → Except ε β} :
    (x >>= f) = .ok b ↔ ∃ a, x = .ok a ∧ f a = .ok b := by
  cases x <;> simp [bind, Except.bind]

theorem map_eq_ok {x : Except ε α} {f : α → β} :
    x.map f = .ok b ↔ ∃ a, x = .ok a ∧ f a = b := by
  cases x <;> simp [Except.map]

@[simp] theorem Outcome.bind_eq_ok {f : α → Outcome ε β} :
    (x >>= f) = .ok b ↔ ∃ a, x = .ok a ∧ f a = .ok b :=
  OpenSecret.bind_eq_ok

structure Primitives where
  hkdfSha256 : (salt : Option Bytes) → (inputKey info : Bytes) → Option AeadKey
  hmacSha256 : (key message : Bytes) → Option (Octets 32)
  aesGcmEncrypt : AeadKey → Nonce → (message aad : Bytes) → Option Bytes
  aesGcmDecrypt : AeadKey → Nonce → (ciphertext aad : Bytes) → Option Bytes

/-- Ideal authenticated encryption: a ciphertext opens to what was sealed, and
    only under the key and the associated data it was sealed with. -/
structure Primitives.IdealAead (P : Primitives) : Prop where
  opens : ∀ {key nonce message aad ciphertext},
    P.aesGcmEncrypt key nonce message aad = some ciphertext →
      P.aesGcmDecrypt key nonce ciphertext aad = some message
  only : ∀ {key nonce message aad ciphertext key' nonce' aad' message'},
    P.aesGcmEncrypt key nonce message aad = some ciphertext →
      P.aesGcmDecrypt key' nonce' ciphertext aad' = some message' → key' = key ∧ aad' = aad

/-- Primitives that hide nothing and satisfy every ideal assumption: the
    ciphertext shows its key and associated data, the MAC the end of its message. -/
def transparentHeader (key : AeadKey) (aad : Bytes) : Bytes :=
  key.bytes ++ (replicate aad.length 1 ++ 0 :: aad)

def lastOctets (message : Bytes) : Octets 32 :=
  ⟨(message.reverse ++ replicate 32 0).take 32,by simp⟩

def transparentPrimitives : Primitives where
  hkdfSha256 salt inputKey info := some (lastOctets (salt.getD [] ++ inputKey ++ info))
  hmacSha256 key message := some (lastOctets (key ++ message))
  aesGcmEncrypt key _ message aad := some (transparentHeader key aad ++ message)
  aesGcmDecrypt key _ ciphertext aad :=
    if transparentHeader key aad <+: ciphertext then
      some (ciphertext.drop (transparentHeader key aad).length)
    else none

theorem replicate_marker_injective {n m : Nat}
    (same : replicate n 1 ++ 0 :: rest = replicate m 1 ++ 0 :: other) :
    n = m ∧ rest = other := by
  induction n generalizing m with
  | zero =>
    cases m with
    | zero => exact ⟨rfl,by simpa using same⟩
    | succ m => exact absurd (cons.inj same).1 (by decide)
  | succ n ih =>
    cases m with
    | zero => exact absurd (cons.inj same).1 (by decide)
    | succ m =>
      obtain ⟨rfl,sameRest⟩ := ih (cons.inj same).2
      exact ⟨rfl,sameRest⟩

theorem transparentHeader_injective {key key' : AeadKey} {aad aad' : Bytes}
    (same : transparentHeader key aad ++ rest = transparentHeader key' aad' ++ other) :
    key = key' ∧ aad = aad' := by
  simp only [transparentHeader, append_assoc, cons_append] at same
  obtain ⟨sameKey,same⟩ := append_inj same (by rw [key.size, key'.size])
  obtain ⟨sameLength,same⟩ := replicate_marker_injective same
  exact ⟨Octets.bytes_injective sameKey,(append_inj same sameLength).1⟩

theorem transparentPrimitives_ideal : transparentPrimitives.IdealAead where
  opens := by
    intro key nonce message aad ciphertext enc
    cases enc
    simp [transparentPrimitives]
  only := by
    intro key nonce message aad ciphertext key' nonce' aad' message' enc dec
    cases enc
    simp only [transparentPrimitives, Option.ite_none_right_eq_some] at dec
    obtain ⟨⟨rest,same⟩,-⟩ := dec
    exact transparentHeader_injective same

section
variable (P : Primitives)

def deriveKeyWithOptionalSalt (inputKey : Bytes) (salt : Option Bytes) (info : Bytes) :
    Outcome EncryptError AeadKey :=
  .ofOption .keyDerivationFailed (P.hkdfSha256 salt inputKey info)

def deriveKey (rootKey info : Bytes) : Outcome EncryptError AeadKey :=
  deriveKeyWithOptionalSalt P rootKey none info

def deriveKeyWithSalt (inputKey salt info : Bytes) : Outcome EncryptError AeadKey :=
  deriveKeyWithOptionalSalt P inputKey (some salt) info

/-- The cipher's `expect` panics where the other envelope returns an error. -/
def encryptWithKey (key : AeadKey) (nonce : Nonce) (bytes : Bytes) : Outcome EncryptError Bytes :=
  match P.aesGcmEncrypt key nonce bytes [] with
  | some ciphertext => .ok (nonce.bytes ++ ciphertext)
  | none => .error .panicked

def encryptAeadV1 (key : AeadKey) (nonce : Nonce) (plaintext aad : Bytes) :
    Outcome EncryptError Bytes := do
  let ciphertext ← .ofOption .failedToDecrypt (P.aesGcmEncrypt key nonce plaintext aad)
  return nonce.bytes ++ ciphertext

theorem length_nonce (long : ¬ bytes.length < 12) : (bytes.take 12).length = 12 := by
  rw [length_take]
  omega

def decryptAeadV1 (key : AeadKey) (bytes aad : Bytes) : Outcome EncryptError Bytes :=
  if short : bytes.length < 12 then
    .error (.error .badData)
  else
    let nonce : Nonce := ⟨bytes.take 12,length_nonce short⟩
    .ofOption .failedToDecrypt (P.aesGcmDecrypt key nonce (bytes.drop 12) aad)

/-- Without associated data AES-GCM authenticates the empty string. -/
def decryptWithKey (key : AeadKey) (bytes : Bytes) : Outcome EncryptError Bytes :=
  decryptAeadV1 P key bytes []

variable {P} {key key' : AeadKey} {nonce : Nonce} {plaintext aad aad' sealed bytes opened : Bytes}

theorem encryptAeadV1_ok (h : encryptAeadV1 P key nonce plaintext aad = .ok sealed) :
    ∃ ciphertext, P.aesGcmEncrypt key nonce plaintext aad = some ciphertext ∧
      sealed = nonce.bytes ++ ciphertext := by
  simp only [encryptAeadV1, Outcome.bind_eq_ok, Outcome.ofOption_eq_ok] at h
  obtain ⟨ciphertext,enc,same⟩ := h
  cases same
  exact ⟨ciphertext,enc,rfl⟩

theorem decryptAeadV1_of_nonce (key : AeadKey) (nonce : Nonce) (ciphertext aad : Bytes) :
    decryptAeadV1 P key (nonce.bytes ++ ciphertext) aad =
      .ofOption .failedToDecrypt (P.aesGcmDecrypt key nonce ciphertext aad) := by
  have size := nonce.size
  have long : ¬ (nonce.bytes ++ ciphertext).length < 12 := by
    rw [length_append]; omega
  simp only [decryptAeadV1, long, dite_false, take_left' size, drop_left' size]

theorem decryptAeadV1_opens (ideal : P.IdealAead)
    (h : encryptAeadV1 P key nonce plaintext aad = .ok sealed) :
    decryptAeadV1 P key sealed aad = .ok plaintext := by
  obtain ⟨ciphertext,enc,rfl⟩ := encryptAeadV1_ok h
  rw [decryptAeadV1_of_nonce, ideal.opens enc]
  rfl

theorem decryptWithKey_encryptWithKey (ideal : P.IdealAead)
    (h : encryptWithKey P key nonce plaintext = .ok sealed) :
    decryptWithKey P key sealed = .ok plaintext := by
  unfold encryptWithKey at h
  split at h
  · rename_i ciphertext enc
    cases h
    rw [decryptWithKey, decryptAeadV1_of_nonce, ideal.opens enc]
    rfl
  · cases h

theorem decryptAeadV1_only (ideal : P.IdealAead)
    (h : encryptAeadV1 P key nonce plaintext aad = .ok sealed)
    (opens : decryptAeadV1 P key' sealed aad' = .ok opened) :
    key' = key ∧ aad' = aad ∧ opened = plaintext := by
  obtain ⟨ciphertext,enc,rfl⟩ := encryptAeadV1_ok h
  rw [decryptAeadV1_of_nonce, Outcome.ofOption_eq_ok] at opens
  obtain ⟨rfl,rfl⟩ := ideal.only enc opens
  rw [ideal.opens enc] at opens
  exact ⟨rfl,rfl,(Option.some.inj opens).symm⟩

end

structure CanonicalBytes where
  bytes : Bytes
  deriving DecidableEq, Repr

namespace CanonicalBytes

def appendField (c : CanonicalBytes) (tag : UInt8) (value : Bytes) :
    Outcome EncryptError CanonicalBytes :=
  -- the u32 conversion of the length panics on longer fields
  if value.length < 2 ^ 32 then
    .ok ⟨c.bytes ++ tag :: (bigEndian 4 value.length ++ value)⟩
  else
    .error .panicked

def appendStr (c : CanonicalBytes) (value : Text) : Outcome EncryptError CanonicalBytes :=
  c.appendField 's'.toUInt8 (utf8 value)

def appendBytes (c : CanonicalBytes) (value : Bytes) : Outcome EncryptError CanonicalBytes :=
  c.appendField 'b'.toUInt8 value

def appendI16 (c : CanonicalBytes) (value : Int16) : Outcome EncryptError CanonicalBytes :=
  c.appendField 'i'.toUInt8 (bigEndian 2 value.toBitVec.toNat)

def appendI32 (c : CanonicalBytes) (value : Int32) : Outcome EncryptError CanonicalBytes :=
  c.appendField 'I'.toUInt8 (bigEndian 4 value.toBitVec.toNat)

def appendUuid (c : CanonicalBytes) (value : Uuid) : Outcome EncryptError CanonicalBytes :=
  c.appendField 'u'.toUInt8 value.bytes

def new (domain : Text) : Outcome EncryptError CanonicalBytes := appendStr ⟨[]⟩ domain

end CanonicalBytes

inductive Field where
  | str (value : Text)
  | bytes (value : Bytes)
  | i16 (value : Int16)
  | i32 (value : Int32)
  | uuid (value : Uuid)
  deriving DecidableEq

namespace Field

def frame : Field → Frame
  | .str value => ⟨'s'.toUInt8,utf8 value⟩
  | .bytes value => ⟨'b'.toUInt8,value⟩
  | .i16 value => ⟨'i'.toUInt8,bigEndian 2 value.toBitVec.toNat⟩
  | .i32 value => ⟨'I'.toUInt8,bigEndian 4 value.toBitVec.toNat⟩
  | .uuid value => ⟨'u'.toUInt8,value.bytes⟩

def append (c : CanonicalBytes) : Field → Outcome EncryptError CanonicalBytes
  | .str value => c.appendStr value
  | .bytes value => c.appendBytes value
  | .i16 value => c.appendI16 value
  | .i32 value => c.appendI32 value
  | .uuid value => c.appendUuid value

variable {f : Field}

theorem frame_injective {g : Field} (same : f.frame = g.frame) : f = g := by
  cases f <;> cases g <;> simp only [frame, Frame.mk.injEq] at same <;>
    first
    | exact absurd same.1 (by decide)
    | skip
  case str.str => rw [utf8_injective same.2]
  case bytes.bytes => rw [same.2]
  case i16.i16 a b =>
    have bits := bigEndian_injective (a.toBitVec.isLt) (b.toBitVec.isLt) same.2
    rw [Int16.toBitVec_inj.mp (BitVec.eq_of_toNat_eq bits)]
  case i32.i32 a b =>
    have bits := bigEndian_injective (a.toBitVec.isLt) (b.toBitVec.isLt) same.2
    rw [Int32.toBitVec_inj.mp (BitVec.eq_of_toNat_eq bits)]
  case uuid.uuid => rw [Octets.bytes_injective same.2]

theorem append_ok {c d : CanonicalBytes} (h : f.append c = .ok d) :
    f.frame.Short 4 ∧ d.bytes = c.bytes ++ f.frame.encode 4 := by
  cases f <;>
  · simp only [append, CanonicalBytes.appendStr, CanonicalBytes.appendBytes,
      CanonicalBytes.appendI16, CanonicalBytes.appendI32, CanonicalBytes.appendUuid,
      CanonicalBytes.appendField] at h
    split at h
    · rename_i short
      cases h
      exact ⟨short,rfl⟩
    · cases h

theorem append_of_short (c : CanonicalBytes) (short : f.frame.payload.length < 2 ^ 32) :
    ∃ d, f.append c = .ok d := by
  have put : c.appendField f.frame.tag f.frame.payload = .ok _ := if_pos short
  cases f <;> exact ⟨_,put⟩

end Field

/-- A domain string followed by fields, as the builder chains of the source append them. -/
def canonical (domain : Text) (fields : List Field) : Outcome EncryptError Bytes := do
  let start ← CanonicalBytes.new domain
  let built ← fields.foldlM Field.append start
  return built.bytes

variable {fields : List Field}

theorem foldlM_append_ok {c d : CanonicalBytes} (h : fields.foldlM Field.append c = .ok d) :
    (∀ f ∈ fields, f.frame.Short 4) ∧ d.bytes =
      c.bytes ++ encodeAll 4 (fields.map Field.frame) := by
  induction fields generalizing c with
  | nil => cases h; simp
  | cons f fields ih =>
    simp only [foldlM_cons, Outcome.bind_eq_ok] at h
    obtain ⟨mid,first,rest⟩ := h
    obtain ⟨short,bytesMid⟩ := Field.append_ok first
    obtain ⟨shorts,bytesEnd⟩ := ih rest
    refine ⟨by simpa using ⟨short,shorts⟩,?_⟩
    rw [bytesEnd, bytesMid, map_cons, encodeAll_cons, append_assoc]

theorem canonical_ok (h : canonical domain fields = .ok bytes) :
    (∀ f ∈ Field.str domain :: fields, f.frame.Short 4) ∧
      bytes = encodeAll 4 ((Field.str domain :: fields).map Field.frame) := by
  have whole : (Field.str domain :: fields).foldlM Field.append ⟨[]⟩ = .ok ⟨bytes⟩ := by
    simp only [canonical, Outcome.bind_eq_ok] at h
    obtain ⟨start,first,built,rest,same⟩ := h
    cases same
    simp only [foldlM_cons, Outcome.bind_eq_ok]
    exact ⟨start,first,rest⟩
  simpa using foldlM_append_ok whole

theorem canonical_injective {domain' : Text} {fields' : List Field}
    (h : canonical domain fields = .ok bytes) (h' : canonical domain' fields' = .ok bytes) :
    domain = domain' ∧ fields = fields' := by
  obtain ⟨shorts,rfl⟩ := canonical_ok h
  obtain ⟨shorts',same⟩ := canonical_ok h'
  have frames := encodeAll_injective (fun f hf => by
      obtain ⟨field,mem,rfl⟩ := mem_map.mp hf
      exact shorts field mem)
    (fun f hf => by
      obtain ⟨field,mem,rfl⟩ := mem_map.mp hf
      exact shorts' field mem) same
  have fieldsEq := map_injective_iff.mpr (fun _ _ => Field.frame_injective) frames
  obtain ⟨first,rest⟩ := cons.inj fieldsEq
  exact ⟨Field.str.inj first,rest⟩

theorem foldlM_append_of_short (short : ∀ f ∈ fields, f.frame.payload.length < 2 ^ 32)
    (c : CanonicalBytes) :
    ∃ d, fields.foldlM Field.append c = .ok d := by
  induction fields generalizing c with
  | nil => exact ⟨c,rfl⟩
  | cons f fields ih =>
    obtain ⟨mid,first⟩ := Field.append_of_short c (short f mem_cons_self)
    obtain ⟨d,rest⟩ := ih (fun g mem => short g (mem_cons_of_mem _ mem)) mid
    refine ⟨d,?_⟩
    rw [foldlM_cons, first]
    exact rest

theorem canonical_of_short
    (short : ∀ f ∈ Field.str domain :: fields, f.frame.payload.length < 2 ^ 32) :
    ∃ bytes, canonical domain fields = .ok bytes := by
  obtain ⟨start,first⟩ := Field.append_of_short ⟨[]⟩ (short (.str domain) mem_cons_self)
  obtain ⟨built,rest⟩ :=
    foldlM_append_of_short (fun f mem => short f (mem_cons_of_mem _ mem)) start
  refine ⟨built.bytes,?_⟩
  have opened : CanonicalBytes.new domain = .ok start := first
  rw [canonical, opened]
  show (fields.foldlM Field.append start >>= fun built => pure built.bytes) = _
  rw [rest]
  rfl

/-- Fields that fit are encoded, and no two sequences of a domain and typed fields
    have the same encoding. -/
theorem canonical_encoding_injective {domain domain' : Text} {fields fields' : List Field}
    (short : ∀ f ∈ Field.str domain :: fields, f.frame.payload.length < 2 ^ 32)
    (short' : ∀ f ∈ Field.str domain' :: fields', f.frame.payload.length < 2 ^ 32) :
    ∃ bytes bytes', canonical domain fields = .ok bytes ∧ canonical domain' fields' = .ok bytes' ∧
      (bytes = bytes' → domain = domain' ∧ fields = fields') := by
  obtain ⟨bytes,built⟩ := canonical_of_short short
  obtain ⟨bytes',built'⟩ := canonical_of_short short'
  refine ⟨bytes,bytes',built,built',fun same => ?_⟩
  subst same
  exact canonical_injective built built'

/-- A string and a byte string with the same octets stay apart. -/
theorem tags_keep_fields_apart :
    ∃ bytes bytes', canonical "d" [.str "a",.i16 1] = .ok bytes ∧
      canonical "d" [.bytes [97],.i16 1] = .ok bytes' ∧ bytes ≠ bytes' := by
  have short : ∀ f ∈ [Field.str "d",.str "a",.i16 1], f.frame.payload.length < 2 ^ 32 := by
    decide
  have short' : ∀ f ∈ [Field.str "d",.bytes [97],.i16 1], f.frame.payload.length < 2 ^ 32 := by
    decide
  obtain ⟨bytes,bytes',built,built',apart⟩ := canonical_encoding_injective short short'
  refine ⟨bytes,bytes',built,built',fun same => ?_⟩
  exact absurd (apart same).2 (by decide)

end OpenSecret

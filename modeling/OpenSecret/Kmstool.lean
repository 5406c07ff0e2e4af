import OpenSecret.Encrypt
import OpenSecret.Foundation.Text

/-!
`encrypt.rs`: reading what `kmstool_enclave_cli` prints. The base64 decoding is a
parameter; its error is a text.
-/
namespace OpenSecret
open Framing List

def kmstoolPlaintextPrefix : Text := "PLAINTEXT: "

def kmstoolCiphertextPrefix : Text := "CIPHERTEXT: "

def aes256KeyLength : Nat := 32

structure GenKeyResult where
  key : Bytes
  encryptedKey : Bytes
  deriving DecidableEq, Repr

def stripSingleTrailingNewline (output operation : Text) : Except EncryptError Text :=
  if '\r' ∈ output then
    .error
      (.kmsError ("Unexpected carriage return in kmstool ".toList ++ operation ++ " output".toList))
  else
    let output := if output.getLast? = some '\n' then output.dropLast else output
    if output.getLast? = some '\n' then
      .error
        (.kmsError ("Unexpected blank line in kmstool ".toList ++ operation ++ " output".toList))
    else .ok output

/-- The output with or without its final newline. -/
def EndsLine (output text : Text) : Prop := output = text ∨ output = text ++ ['\n']

section
variable (decode : Text → Except Text Bytes)

def decodeKmstoolLine (line expectedPrefix fieldName : Text) : Except EncryptError Bytes :=
  match Text.stripPrefix line expectedPrefix with
  | none => .error (.kmsError ("Failed to parse kmstool ".toList ++ fieldName))
  | some encoded =>
    if encoded = [] then .error (.kmsError ("Empty kmstool ".toList ++ fieldName))
    else match decode encoded with
      | .ok bytes => .ok bytes
      | .error e =>
        .error (.kmsError ("Failed to decode kmstool ".toList ++ fieldName ++ ": ".toList ++ e))

def parseKmstoolPlaintext (output operation : Text) (expectedLength : Option Nat) :
    Except EncryptError Bytes := do
  let line ← stripSingleTrailingNewline output operation
  if '\n' ∈ line then
    throw
      (.kmsError ("Unexpected additional line in kmstool ".toList ++ operation ++ " output".toList))
  else
    let plaintext ← decodeKmstoolLine decode line kmstoolPlaintextPrefix "plaintext"
    match expectedLength with
    | none => return plaintext
    | some expectedLength =>
      if plaintext.length ≠ expectedLength then
        throw (.kmsError ("Invalid kmstool ".toList ++ operation ++
          " plaintext length: expected ".toList ++
          Nat.toDigits 10 expectedLength ++ " bytes, got ".toList ++
            Nat.toDigits 10 plaintext.length))
      else return plaintext

def validateAes256KeyLength (key : Bytes) : Except EncryptError Unit :=
  if key.length ≠ aes256KeyLength then
    .error (.kmsError ("Invalid AES-256 key length: expected ".toList ++
      Nat.toDigits 10 aes256KeyLength ++
      " bytes, got ".toList ++ Nat.toDigits 10 key.length))
  else .ok ()

def parseKmstoolGenkey (output : Text) : Except EncryptError GenKeyResult := do
  let output ← stripSingleTrailingNewline output "genkey"
  match output.splitOn '\n' with
  | [] => throw (.kmsError "Missing kmstool ciphertext")
  | [_] => throw (.kmsError "Missing kmstool plaintext")
  | ciphertextLine :: plaintextLine :: lines =>
    if lines ≠ [] then
      throw (.kmsError "Unexpected additional line in kmstool genkey output")
    else
      let encryptedKey ← decodeKmstoolLine decode ciphertextLine
        kmstoolCiphertextPrefix "encrypted key"
      let key ← decodeKmstoolLine decode plaintextLine kmstoolPlaintextPrefix "plaintext key"
      validateAes256KeyLength key
      return ⟨key,encryptedKey⟩

structure KmstoolPayload (encoded : Text) (bytes : Bytes) : Prop where
  nonempty : encoded ≠ []
  oneLine : '\n' ∉ encoded
  decoded : decode encoded = .ok bytes

structure PlaintextOutput (output : Text) (expectedLength : Option Nat) (bytes : Bytes) : Prop where
  noReturn : '\r' ∉ output
  line : ∃ encoded, EndsLine output (kmstoolPlaintextPrefix ++ encoded) ∧
    KmstoolPayload decode encoded bytes
  size : ∀ n, expectedLength = some n → bytes.length = n

structure GenkeyOutput (output : Text) (result : GenKeyResult) : Prop where
  noReturn : '\r' ∉ output
  lines : ∃ ciphertext plaintext,
    EndsLine output (kmstoolCiphertextPrefix ++ ciphertext ++
      '\n' :: (kmstoolPlaintextPrefix ++ plaintext)) ∧
    KmstoolPayload decode ciphertext result.encryptedKey ∧
      KmstoolPayload decode plaintext result.key
  size : result.key.length = aes256KeyLength

end

/-- What is asked of the code the tool prints bytes in. -/
structure KmstoolCode (decode : Text → Except Text Bytes) (encode : Bytes → Text) : Prop where
  decodes : ∀ bytes, decode (encode bytes) = .ok bytes
  plain : ∀ bytes, '\r' ∉ encode bytes ∧ '\n' ∉ encode bytes
  nonempty : ∀ bytes, bytes ≠ [] → encode bytes ≠ []

def printGenkey (encode : Bytes → Text) (pair : GenKeyResult) : Text :=
  kmstoolCiphertextPrefix ++ encode pair.encryptedKey ++ '\n' ::
    (kmstoolPlaintextPrefix ++ encode pair.key) ++ ['\n']

variable {decode : Text → Except Text Bytes} {output operation line label encoded : Text}
  {bytes : Bytes}

theorem strip_eq_ok : stripSingleTrailingNewline output operation = .ok line ↔
    '\r' ∉ output ∧ line.getLast? ≠ some '\n' ∧ EndsLine output line := by
  constructor
  · intro stripped
    unfold stripSingleTrailingNewline at stripped
    split at stripped
    · cases stripped
    rename_i noReturn
    by_cases ends : output.getLast? = some '\n'
    · simp only [ends, if_true] at stripped
      split at stripped
      · cases stripped
      rename_i solid
      cases stripped
      exact ⟨noReturn,solid,.inr (dropLast_append_getLast? _ ends).symm⟩
    · simp only [ends, if_false] at stripped
      cases stripped
      exact ⟨noReturn,ends,.inl rfl⟩
  · rintro ⟨noReturn,solid,rfl | rfl⟩
    · simp [stripSingleTrailingNewline, noReturn, solid]
    · rw [stripSingleTrailingNewline, if_neg noReturn]
      simp [solid]

theorem decodeLine_eq_ok {fieldName : Text} :
    decodeKmstoolLine decode line label fieldName = .ok bytes ↔
    ∃ encoded, line = label ++ encoded ∧ encoded ≠ [] ∧ decode encoded = .ok bytes := by
  unfold decodeKmstoolLine
  cases stripped : Text.stripPrefix line label with
  | none =>
    refine ⟨nofun,?_⟩
    rintro ⟨encoded,rfl,-⟩
    rw [Text.stripPrefix_append] at stripped
    cases stripped
  | some encoded =>
    obtain rfl : line = label ++ encoded := Text.of_stripPrefix stripped
    simp only [append_cancel_left_eq, exists_eq_left']
    by_cases empty : encoded = []
    · simp [empty]
    · rw [if_neg empty]
      cases decode encoded <;> simp [empty]

theorem payload_solid (payload : KmstoolPayload decode encoded bytes) (before : Text) :
    (before ++ encoded).getLast? ≠ some '\n' := by
  rw [getLast?_append_of_ne_nil _ payload.nonempty]
  exact fun ends => payload.oneLine (mem_of_getLast? ends)

theorem parsePlaintext_eq_ok {expectedLength : Option Nat} :
    parseKmstoolPlaintext decode output operation expectedLength = .ok bytes ↔
      PlaintextOutput decode output expectedLength bytes := by
  unfold parseKmstoolPlaintext
  constructor
  · intro parsed
    obtain ⟨line,stripped,parsed⟩ := bind_eq_ok.mp parsed
    obtain ⟨noReturn,-,ends⟩ := strip_eq_ok.mp stripped
    by_cases oneLine : '\n' ∈ line
    · rw [if_pos oneLine] at parsed
      cases parsed
    rw [if_neg oneLine] at parsed
    obtain ⟨plaintext,found,rest⟩ := bind_eq_ok.mp parsed
    obtain ⟨encoded,rfl,nonempty,decoded⟩ := decodeLine_eq_ok.mp found
    rw [mem_append, not_or] at oneLine
    have sized : plaintext = bytes ∧ ∀ n, expectedLength = some n → plaintext.length = n := by
      cases expectedLength with
      | none => exact ⟨Except.ok.inj rest,nofun⟩
      | some n =>
        dsimp only at rest
        split at rest
        · cases rest
        · rename_i size
          refine ⟨Except.ok.inj rest,fun m same => ?_⟩
          cases same
          exact Decidable.not_not.mp size
    obtain ⟨rfl,sized⟩ := sized
    exact ⟨noReturn,⟨encoded,ends,nonempty,oneLine.2,decoded⟩,sized⟩
  · rintro ⟨noReturn,⟨encoded,ends,payload⟩,sized⟩
    have oneLine : '\n' ∉ kmstoolPlaintextPrefix ++ encoded := by
      rw [mem_append, not_or]
      exact ⟨by decide,payload.oneLine⟩
    refine bind_eq_ok.mpr ⟨_,strip_eq_ok.mpr ⟨noReturn,payload_solid payload _,ends⟩,?_⟩
    rw [if_neg oneLine]
    refine bind_eq_ok.mpr
      ⟨bytes,decodeLine_eq_ok.mpr ⟨encoded,rfl,payload.nonempty,payload.decoded⟩,?_⟩
    cases expectedLength with
    | none => rfl
    | some n => exact if_neg (Decidable.not_not.mpr (sized n rfl))

theorem splitOn_cases (t : Text) : '\n' ∉ t ∧ t.splitOn '\n' = [t] ∨
    ∃ a b, t = a ++ '\n' :: b ∧ '\n' ∉ a ∧ t.splitOn '\n' = a :: b.splitOn '\n' := by
  by_cases mem : '\n' ∈ t
  · obtain ⟨a,b,rfl,first⟩ := eq_append_cons_of_mem mem
    exact .inr ⟨a,b,rfl,first,splitOn_append_cons_self_of_not_mem first b⟩
  · exact .inl ⟨mem,splitOn_eq_singleton mem⟩

theorem splitOn_eq_pair {first second : Text} (split : line.splitOn '\n' = [first,second]) :
    line = first ++ '\n' :: second ∧ '\n' ∉ first ∧ '\n' ∉ second := by
  rcases splitOn_cases line with ⟨-,one⟩ | ⟨a,b,rfl,noFirst,rest⟩
  · rw [one] at split
    cases split
  rcases splitOn_cases b with ⟨noSecond,one⟩ | ⟨c,d,rfl,-,more⟩
  · rw [rest, one] at split
    cases split
    exact ⟨rfl,noFirst,noSecond⟩
  · rw [rest, more] at split
    exact absurd (cons.inj (cons.inj split).2).2 (splitOn_ne_nil '\n' d)

theorem validateAes256KeyLength_eq_ok {u : Unit} :
    validateAes256KeyLength bytes = .ok u ↔ bytes.length = aes256KeyLength := by
  unfold validateAes256KeyLength
  split <;> simp_all

theorem parseGenkey_eq_ok {result : GenKeyResult} :
    parseKmstoolGenkey decode output = .ok result ↔ GenkeyOutput decode output result := by
  unfold parseKmstoolGenkey
  constructor
  · intro parsed
    obtain ⟨text,stripped,parsed⟩ := bind_eq_ok.mp parsed
    obtain ⟨noReturn,-,ends⟩ := strip_eq_ok.mp stripped
    split at parsed
    · cases parsed
    · cases parsed
    rename_i first second lines split
    by_cases more : lines = []
    · rw [if_neg (Decidable.not_not.mpr more)] at parsed
      obtain ⟨encryptedKey,decoded,parsed⟩ := bind_eq_ok.mp parsed
      obtain ⟨key,decoded',parsed⟩ := bind_eq_ok.mp parsed
      obtain ⟨_,sized,parsed⟩ := bind_eq_ok.mp parsed
      cases parsed
      obtain ⟨ciphertext,rfl,nonempty,decoded⟩ := decodeLine_eq_ok.mp decoded
      obtain ⟨plaintext,rfl,nonempty',decoded'⟩ := decodeLine_eq_ok.mp decoded'
      obtain ⟨rfl,noFirst,noSecond⟩ := splitOn_eq_pair (more ▸ split)
      rw [mem_append, not_or] at noFirst noSecond
      exact ⟨noReturn,
        ⟨ciphertext,plaintext,ends,⟨nonempty,noFirst.2,decoded⟩,nonempty',noSecond.2,decoded'⟩,
        validateAes256KeyLength_eq_ok.mp sized⟩
    · rw [if_pos more] at parsed
      cases parsed
  · rintro ⟨noReturn,⟨ciphertext,plaintext,ends,payload,payload'⟩,sized⟩
    have noFirst : '\n' ∉ kmstoolCiphertextPrefix ++ ciphertext := by
      rw [mem_append, not_or]
      exact ⟨by decide,payload.oneLine⟩
    have noSecond : '\n' ∉ kmstoolPlaintextPrefix ++ plaintext := by
      rw [mem_append, not_or]
      exact ⟨by decide,payload'.oneLine⟩
    have solid :=
      payload_solid payload' (kmstoolCiphertextPrefix ++ ciphertext ++
        '\n' :: kmstoolPlaintextPrefix)
    rw [append_assoc, cons_append] at solid
    refine bind_eq_ok.mpr ⟨_,strip_eq_ok.mpr ⟨noReturn,solid,ends⟩,?_⟩
    rw [splitOn_append_cons_self_of_not_mem noFirst, splitOn_eq_singleton noSecond]
    refine (if_neg (by simp)).trans
      (bind_eq_ok.mpr ⟨_,decodeLine_eq_ok.mpr ⟨_,rfl,payload.nonempty,payload.decoded⟩,?_⟩)
    refine bind_eq_ok.mpr ⟨_,decodeLine_eq_ok.mpr ⟨_,rfl,payload'.nonempty,payload'.decoded⟩,?_⟩
    exact bind_eq_ok.mpr ⟨(),validateAes256KeyLength_eq_ok.mpr sized,rfl⟩

/-- Whatever the decoding: both parsers accept exactly the labelled lines they expect,
    with good payloads and at most one final newline, and return what the payloads
    decode to. So what the tool prints of a key pair is read back. -/
theorem kmstool_output_parsed (decode : Text → Except Text Bytes) :
    (∀ output operation expectedLength bytes,
      parseKmstoolPlaintext decode output operation expectedLength = .ok bytes ↔
        PlaintextOutput decode output expectedLength bytes) ∧
    (∀ output result, parseKmstoolGenkey decode output = .ok result ↔
      GenkeyOutput decode output result) ∧
    ∀ encode pair, KmstoolCode decode encode → pair.key.length = aes256KeyLength →
      pair.encryptedKey ≠ [] →
      parseKmstoolGenkey decode (printGenkey encode pair) = .ok pair := by
  refine ⟨fun _ _ _ _ => parsePlaintext_eq_ok,fun _ _ => parseGenkey_eq_ok,?_⟩
  intro encode pair code sized nonempty
  have keyed : pair.key ≠ [] := by
    intro empty
    rw [empty] at sized
    cases sized
  have printed : ∀ bytes, bytes ≠ [] → KmstoolPayload decode (encode bytes) bytes :=
    fun bytes some =>
    ⟨code.nonempty bytes some,(code.plain bytes).2,code.decodes bytes⟩
  refine parseGenkey_eq_ok.mpr
    ⟨?_,⟨encode pair.encryptedKey,encode pair.key,.inr rfl,printed _ nonempty,
    printed _ keyed⟩,sized⟩
  have labels : '\r' ∉ kmstoolCiphertextPrefix ∧ '\r' ∉ kmstoolPlaintextPrefix := by decide
  simp [printGenkey, code.plain, labels]

def hexDecode (t : Text) : Except Text Bytes :=
  match Text.unhex t with
  | some bytes => .ok bytes
  | none => .error "odd"

theorem hex_pair_read_back : KmstoolCode hexDecode Text.lowerHex ∧
    parseKmstoolGenkey hexDecode (printGenkey Text.lowerHex ⟨replicate 32 7,[1,2]⟩) =
      .ok ⟨replicate 32 7,[1,2]⟩ := by
  have code : KmstoolCode hexDecode Text.lowerHex := by
    refine ⟨fun bytes => ?_,fun bytes =>
      ⟨Text.not_mem_lowerHex rfl bytes,Text.not_mem_lowerHex rfl bytes⟩,?_⟩
    · rw [hexDecode, Text.unhex_lowerHex]
    · intro bytes some empty
      have read := Text.unhex_lowerHex bytes
      rw [empty] at read
      exact some (Option.some.inj read).symm
  exact ⟨code,(kmstool_output_parsed hexDecode).2.2 Text.lowerHex
    ⟨replicate 32 7,[1,2]⟩ code rfl (by decide)⟩

end OpenSecret

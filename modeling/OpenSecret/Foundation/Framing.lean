import Mathlib.Algebra.Group.Int.Defs
import Mathlib.Algebra.Group.Nat.Defs
import Mathlib.Data.List.Basic

/-!
Byte strings made of tagged fields, each preceded by its length in a fixed
number of big-endian bytes. A field can be cut off the front of any longer
string, so a sequence of fields is determined by its bytes.
-/
namespace Framing

abbrev Bytes := List UInt8
abbrev Text := List Char

instance : LawfulBEq Text := inferInstance

instance : Coe String Text := ⟨String.toList⟩

theorem mem_snoc {α : Type _} {a b : α} {l : List α} : a ∈ l ++ [b] ↔ a ∈ l ∨ a = b := by simp

def bigEndian : Nat → Nat → Bytes
  | 0, _ => []
  | width + 1, n => UInt8.ofNat (n / 256 ^ width) :: bigEndian width (n % 256 ^ width)

@[simp] theorem bigEndian_length (width n : Nat) : (bigEndian width n).length = width := by
  induction width generalizing n with
  | zero => rfl
  | succ width ih => simp [bigEndian, ih]

variable {width : Nat}

theorem bigEndian_injective {n m : Nat} (boundN : n < 256 ^ width)
    (boundM : m < 256 ^ width) (same : bigEndian width n = bigEndian width m) : n = m := by
  induction width generalizing n m with
  | zero => simp only [Nat.pow_zero] at boundN boundM; omega
  | succ width ih =>
    have positive : 0 < 256 ^ width := Nat.pow_pos (by decide)
    obtain ⟨head,tail⟩ := List.cons.inj same
    have rest := ih (Nat.mod_lt n positive) (Nat.mod_lt m positive) tail
    have digitN : n / 256 ^ width < 256 := by
      rw [Nat.div_lt_iff_lt_mul positive]; rw [Nat.pow_succ] at boundN; omega
    have digitM : m / 256 ^ width < 256 := by
      rw [Nat.div_lt_iff_lt_mul positive]; rw [Nat.pow_succ] at boundM; omega
    have lead : n / 256 ^ width = m / 256 ^ width := by
      have values := congrArg UInt8.toNat head
      rwa [UInt8.toNat_ofNat_of_lt' digitN, UInt8.toNat_ofNat_of_lt' digitM] at values
    rw [← Nat.div_add_mod n (256 ^ width), ← Nat.div_add_mod m (256 ^ width), lead, rest]

structure Frame where
  tag : UInt8
  payload : Bytes
  deriving DecidableEq, Repr

def Frame.Short (width : Nat) (f : Frame) : Prop := f.payload.length < 256 ^ width

def Frame.encode (width : Nat) (f : Frame) : Bytes :=
  f.tag :: (bigEndian width f.payload.length ++ f.payload)

def encodeAll (width : Nat) (fs : List Frame) : Bytes := fs.flatMap (Frame.encode width)

@[simp] theorem encodeAll_nil (width : Nat) : encodeAll width [] = [] := rfl

@[simp] theorem encodeAll_cons (width : Nat) (f : Frame) (fs : List Frame) :
    encodeAll width (f :: fs) = f.encode width ++ encodeAll width fs := rfl

theorem encode_append_injective {f g : Frame} {rest other : Bytes} (shortF : f.Short width)
    (shortG : g.Short width) (same : f.encode width ++ rest = g.encode width ++ other) :
    f = g ∧ rest = other := by
  obtain ⟨tag,payload⟩ := f
  obtain ⟨tag',payload'⟩ := g
  simp only [Frame.encode, List.cons_append, List.append_assoc, List.cons.injEq] at same
  obtain ⟨sameTag,same⟩ := same
  obtain ⟨sameLength,same⟩ := List.append_inj same (by simp)
  have length := bigEndian_injective shortF shortG sameLength
  obtain ⟨samePayload,sameRest⟩ := List.append_inj same length
  exact ⟨by rw [sameTag, samePayload],sameRest⟩

theorem encodeAll_injective {fs gs : List Frame} (shortF : ∀ f ∈ fs, f.Short width)
    (shortG : ∀ g ∈ gs, g.Short width) (same : encodeAll width fs = encodeAll width gs) :
    fs = gs := by
  induction fs generalizing gs with
  | nil =>
    cases gs with
    | nil => rfl
    | cons g gs => simp [Frame.encode] at same
  | cons f fs ih =>
    cases gs with
    | nil => simp [Frame.encode] at same
    | cons g gs =>
      obtain ⟨sameHead,sameTail⟩ :=
        encode_append_injective (shortF f (by simp)) (shortG g (by simp)) same
      rw [sameHead, ih (fun x hx => shortF x (by simp [hx])) (fun x hx => shortG x (by simp [hx]))
        sameTail]

def utf8 (t : Text) : Bytes := t.flatMap String.utf8EncodeChar

def decodeUtf8 (bytes : Bytes) : Option Text := bytes.toByteArray.utf8Decode?.map Array.toList

@[simp] theorem decodeUtf8_utf8 (t : Text) : decodeUtf8 (utf8 t) = some t := by
  have decoded : (utf8 t).toByteArray.utf8Decode? = some t.toArray := List.utf8Decode?_utf8Encode
  simp [decodeUtf8, decoded]

theorem utf8_injective {t u : Text} (same : utf8 t = utf8 u) : t = u := by
  have decoded := congrArg decodeUtf8 same
  simpa using decoded

end Framing

import OpenSecret.Foundation.Framing
import Mathlib.Data.List.Infix

/-!
Operations on strings, read as lists of Unicode scalar values.
-/
namespace Text
open Framing

/-- The `White_Space` property. -/
def isWhitespace (c : Char) : Bool :=
  let n := c.toNat
  (9 ≤ n && n ≤ 13) || n == 0x20 || n == 0x85 || n == 0xA0 || n == 0x1680 ||
    (0x2000 ≤ n && n ≤ 0x200A) || n == 0x2028 || n == 0x2029 || n == 0x202F || n == 0x205F ||
    n == 0x3000

def trimStart (t : Text) : Text := t.dropWhile isWhitespace

def trimEnd (t : Text) : Text := (t.reverse.dropWhile isWhitespace).reverse

def trim (t : Text) : Text := trimEnd (trimStart t)

def toAsciiLowercase (t : Text) : Text := t.map Char.toLower

def contains (t needle : Text) : Bool := decide (needle <:+: t)

def startsWith (t start : Text) : Bool := decide (start <+: t)

def stripPrefix (t start : Text) : Option Text :=
  if start <+: t then some (t.drop start.length) else none

def hexDigit (n : Nat) : Char := ("0123456789abcdef".toList)[n % 16]?.getD '0'

def lowerHex (bytes : Bytes) : Text :=
  bytes.flatMap fun b => [hexDigit (b.toNat / 16),hexDigit b.toNat]

def hexValue (c : Char) : Option Nat := "0123456789abcdef".toList.idxOf? c

def unhex : Text → Option Bytes
  | [] => some []
  | high :: low :: rest => do
    let h ← hexValue high
    let l ← hexValue low
    let bytes ← unhex rest
    return UInt8.ofNat (h * 16 + l) :: bytes
  | _ => none

@[simp] theorem stripPrefix_append (start rest : Text) :
    stripPrefix (start ++ rest) start = some rest := by
  simp [stripPrefix]

theorem of_stripPrefix {t start rest : Text} (stripped : stripPrefix t start = some rest) :
    t = start ++ rest := by
  unfold stripPrefix at stripped
  split at stripped
  · rename_i starts
    cases stripped
    exact List.prefix_append_drop starts
  · cases stripped

theorem hexValue_hexDigit (n : Nat) : hexValue (hexDigit n) = some (n % 16) := by
  have all : ∀ m < 16, hexValue (hexDigit m) = some m := by decide +kernel
  have same : hexDigit n = hexDigit (n % 16) := by
    unfold hexDigit
    rw [Nat.mod_mod]
  rw [same]
  exact all (n % 16) (Nat.mod_lt _ (by decide))

theorem unhex_lowerHex (bytes : Bytes) : unhex (lowerHex bytes) = some bytes := by
  induction bytes with
  | nil => rfl
  | cons b bytes ih =>
    have whole : b.toNat / 16 % 16 * 16 + b.toNat % 16 = b.toNat := by
      have small := b.toNat_lt
      omega
    have step : lowerHex (b :: bytes) =
        hexDigit (b.toNat / 16) :: hexDigit b.toNat :: lowerHex bytes := rfl
    simp only [step, unhex, hexValue_hexDigit, ih, whole, bind,
      Option.bind, pure, UInt8.ofNat_toNat]

theorem not_mem_lowerHex {c : Char} (other : hexValue c = none) (bytes : Bytes) :
    c ∉ lowerHex bytes := by
  have digit : ∀ n, hexDigit n ≠ c := by
    intro n same
    have value := hexValue_hexDigit n
    rw [same, other] at value
    cases value
  intro mem
  obtain ⟨b,_,inPair⟩ := List.mem_flatMap.mp mem
  simp only [List.mem_cons, List.not_mem_nil, or_false] at inPair
  rcases inPair with same | same <;> exact digit _ same.symm

end Text

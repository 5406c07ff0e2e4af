import OpenSecret.Foundation.Framing

/-!
Ranges of byte strings and numbers stored in them with the low byte first. Strings
that agree on a range of positions have the same bytes there.
-/
namespace ByteRanges
open Framing List

def littleEndian : Nat → Nat → Bytes
  | 0, _ => []
  | width + 1, n => UInt8.ofNat (n % 256) :: littleEndian width (n / 256)

def fromLittleEndian : Bytes → Nat
  | [] => 0
  | b :: rest => b.toNat + 256 * fromLittleEndian rest

@[simp] theorem littleEndian_length (width n : Nat) : (littleEndian width n).length = width := by
  induction width generalizing n with
  | zero => rfl
  | succ width ih => simp [littleEndian, ih]

theorem fromLittleEndian_littleEndian {width n : Nat} (fits : n < 256 ^ width) :
    fromLittleEndian (littleEndian width n) = n := by
  induction width generalizing n with
  | zero =>
    rw [Nat.pow_zero] at fits
    simp [littleEndian, fromLittleEndian]
    omega
  | succ width ih =>
    have smaller : n / 256 < 256 ^ width := by
      rw [Nat.div_lt_iff_lt_mul (by decide)]
      rwa [Nat.pow_succ] at fits
    have low : (UInt8.ofNat (n % 256)).toNat = n % 256 :=
      UInt8.toNat_ofNat_of_lt' (Nat.mod_lt n (by decide))
    rw [littleEndian, fromLittleEndian, ih smaller, low]
    omega

theorem fromLittleEndian_lt (bytes : Bytes) : fromLittleEndian bytes < 256 ^ bytes.length := by
  induction bytes with
  | nil => simp [fromLittleEndian]
  | cons b rest ih =>
    have low := b.toNat_lt
    rw [fromLittleEndian, length_cons, Nat.pow_succ]
    omega

section
variable {α : Type} {a b c : List α} {lo hi i : Nat}

def range (l : List α) (lo hi : Nat) : List α := (l.drop lo).take (hi - lo)

theorem length_range (fits : hi ≤ a.length) : (range a lo hi).length = hi - lo := by
  rw [range, length_take, length_drop]
  omega

theorem getElem?_range (inside : i < hi - lo) : (range a lo hi)[i]? = a[lo + i]? := by
  rw [range, getElem?_take_of_lt inside, getElem?_drop]

theorem range_middle (starts : lo = a.length) (ends : hi = a.length + b.length) :
    range (a ++ b ++ c) lo hi = b := by
  subst starts ends
  simp [range]

def AgreeOn (a b : List α) (lo hi : Nat) : Prop := ∀ i, lo ≤ i → i < hi → a[i]? = b[i]?

theorem AgreeOn.mono {lo' hi' : Nat} (agree : AgreeOn a b lo hi)
    (low : lo ≤ lo') (high : hi' ≤ hi) :
    AgreeOn a b lo' hi' := by
  intro i above below
  exact agree i (by omega) (by omega)

theorem range_agree (agree : AgreeOn a b lo hi) : range a lo hi = range b lo hi := by
  refine ext_getElem? fun i => ?_
  by_cases inside : i < hi - lo
  · rw [getElem?_range inside, getElem?_range inside]
    exact agree (lo + i) (by omega) (by omega)
  · rw [range, range, getElem?_eq_none, getElem?_eq_none]
    · rw [length_take]
      omega
    · rw [length_take]
      omega

end

end ByteRanges

import Mathlib.Algebra.Ring.Nat
import Mathlib.Tactic.Common

/-!
# Bit fields and bytes

The low bits of a word, by which a number is put together from groups of bits, and the bytes
of a number in memory, least significant first.
-/

namespace Bits

variable {w : Nat}

/-- The `i` low bits of `v`. -/
def low (v : BitVec w) (i : Nat) : BitVec w := (v.setWidth i).setWidth w

theorem getLsbD_low (v : BitVec w) (i k : Nat) :
    (low v i).getLsbD k = (decide (k < i) && v.getLsbD k) := by
  simp only [low, BitVec.getLsbD_setWidth]
  by_cases hk : k < w
  · simp [hk]
  · simp [hk, BitVec.getLsbD_of_ge v k (by omega)]

@[simp] theorem low_zero (v : BitVec w) : low v 0 = 0#w := by
  apply BitVec.eq_of_getLsbD_eq
  intro k _
  simp [getLsbD_low]

/-- The next `n` bits put above the `i` low ones. -/
theorem low_or (v : BitVec w) (i n : Nat) :
    low v i ||| (low (v >>> i) n <<< i) = low v (i + n) := by
  apply BitVec.eq_of_getLsbD_eq
  intro k hk
  simp only [BitVec.getLsbD_or, BitVec.getLsbD_shiftLeft, getLsbD_low, BitVec.getLsbD_ushiftRight]
  by_cases hki : k < i
  · simp [hki, show k < i + n by omega]
  · rw [show i + (k - i) = k by omega]
    simp [hki, hk, show k - i < n ↔ k < i + n by omega]

theorem low_of_lt {v : BitVec w} {i : Nat} (h : v.toNat < 2 ^ i) : low v i = v := by
  apply BitVec.eq_of_toNat_eq
  simp only [low, BitVec.toNat_setWidth]
  rw [Nat.mod_eq_of_lt h, Nat.mod_eq_of_lt v.isLt]

/-- Nothing is left above a group of bits exactly when the number ends in that group. -/
theorem low_of_shift_lt {v : BitVec w} {i n : Nat} (h : (v >>> i).toNat < 2 ^ n) :
    low v (i + n) = v := by
  rw [BitVec.toNat_ushiftRight, Nat.shiftRight_eq_div_pow] at h
  apply low_of_lt
  rw [Nat.pow_add, Nat.mul_comm]
  exact (Nat.div_lt_iff_lt_mul (Nat.two_pow_pos i)).mp h

theorem and_one (hw : 0 < w) (v : BitVec w) : v &&& 1#w = BitVec.ofNat w (v.toNat % 2) := by
  have hone : 1 < 2 ^ w := Nat.one_lt_two_pow (by omega)
  apply BitVec.eq_of_toNat_eq
  rw [BitVec.toNat_and, BitVec.toNat_ofNat, BitVec.toNat_ofNat, Nat.mod_eq_of_lt hone,
    Nat.and_one_is_mod, Nat.mod_eq_of_lt (a := v.toNat % 2)]
  omega

/-! ## Bytes -/

/-- The `n` low bytes of `x`, least significant first. -/
def toBytes : Nat → Nat → List UInt8
  | 0, _ => []
  | n + 1, x => UInt8.ofNat x :: toBytes n (x / 256)

def ofBytes : List UInt8 → Nat
  | [] => 0
  | b :: bs => b.toNat + 256 * ofBytes bs

@[simp] theorem length_toBytes (n x : Nat) : (toBytes n x).length = n := by
  induction n generalizing x with
  | zero => rfl
  | succ n ih => simp [toBytes, ih]

theorem ofBytes_toBytes (n x : Nat) : ofBytes (toBytes n x) = x % 256 ^ n := by
  induction n generalizing x with
  | zero => simp [toBytes, ofBytes, Nat.mod_one]
  | succ n ih =>
    rw [toBytes, ofBytes, ih, Nat.pow_succ', Nat.mod_mul]
    simp

end Bits

import Mathlib.Algebra.Ring.Int.Defs
import Mathlib.Algebra.Ring.Nat
import Mathlib.Tactic.Common

/-!
# C integer conversions

A `size_t` is a natural number below `2 ^ 64`, an `int` an integer in
`[-2 ^ 31, 2 ^ 31)`.  The conversions below are the implicit ones of C++ on a 64-bit
platform: an `int` assigned to a `size_t` is reduced modulo `2 ^ 64`, a `size_t` returned
as an `int` keeps its low 32 bits in two's complement, a `uint64_t` assigned to an
`int64_t` keeps its bits, and sums and differences of `size_t` wrap.
-/

namespace CInt

/-- The number of values of a `size_t`. -/
def sizeMod : Nat := 2 ^ 64

/-- The value of an `int` converted to `size_t`. -/
def sizeOfInt (r : Int) : Nat := (r % (sizeMod : Int)).toNat

/-- The value of a `size_t` converted to `int`. -/
def intOfSize (n : Nat) : Int :=
  if n % 2 ^ 32 < 2 ^ 31 then (n % 2 ^ 32 : Nat) else (n % 2 ^ 32 : Nat) - 2 ^ 32

/-- The value of a `uint64_t` converted to `int64_t`. -/
def int64OfUint64 (n : UInt64) : Int := n.toBitVec.toInt

/-- The value of a `long` converted to `int`. -/
def intOfLong (n : Int) : Int := n.bmod (2 ^ 32)

/-- `a + b` on `size_t`. -/
def addSize (a b : Nat) : Nat := (a + b) % sizeMod

/-- `a - b` on `size_t`. -/
def subSize (a b : Nat) : Nat := (a + (sizeMod - b % sizeMod)) % sizeMod

theorem sizeOfInt_natCast {n : Nat} (h : n < sizeMod) : sizeOfInt n = n := by
  unfold sizeOfInt sizeMod at *
  omega

theorem sizeOfInt_of_nonneg {r : Int} (h0 : 0 ≤ r) (h : r < sizeMod) : sizeOfInt r = r.toNat := by
  unfold sizeOfInt sizeMod at *
  omega

@[simp] theorem sizeOfInt_zero : sizeOfInt 0 = 0 := rfl

theorem sizeOfInt_neg_one : sizeOfInt (-1) = sizeMod - 1 := rfl

theorem intOfSize_of_lt {n : Nat} (h : n < 2 ^ 31) : intOfSize n = n := by
  unfold intOfSize
  rw [Nat.mod_eq_of_lt (by omega), if_pos h]

theorem int64OfUint64_of_lt {n : UInt64} (h : n.toNat < 2 ^ 63) : int64OfUint64 n = n.toNat :=
  BitVec.toInt_eq_toNat_of_lt (by rw [UInt64.toNat_toBitVec]; omega)

theorem int64OfUint64_lt (n : UInt64) : int64OfUint64 n < 2 ^ 63 := BitVec.toInt_lt

theorem addSize_of_lt {a b : Nat} (h : a + b < sizeMod) : addSize a b = a + b :=
  Nat.mod_eq_of_lt h

theorem subSize_of_le {a b : Nat} (h : b ≤ a) (ha : a < sizeMod) : subSize a b = a - b := by
  unfold subSize sizeMod at *
  omega

/-- Subtracting the `size_t` that stands for `-1` adds one. -/
theorem subSize_neg_one {a : Nat} (h : a + 1 < sizeMod) : subSize a (sizeMod - 1) = a + 1 := by
  unfold subSize sizeMod at *
  omega

end CInt

import Mathlib.Data.Nat.Digits.Defs
import Mathlib.Tactic.Common

/-!
# Numbers in groups of seven bits

A number as bytes of seven bits each, least significant first, where every byte but the last has
its high bit set.  Groups of zeros can follow, so that a number has many encodings; `encode` is the
only one of the shortest length.
-/

namespace Leb128

/-- What the groups of seven bits make up, wherever the high bits are. -/
def value (bytes : List UInt8) : Nat := Nat.ofDigits 128 (bytes.map fun b => b.toNat % 128)

/-- The bytes are an encoding of a number, as long as it may be. -/
inductive Encodes : List UInt8 → Nat → Prop
  | last (b : UInt8) : b.toNat < 0x80 → Encodes [b] b.toNat
  | more (b : UInt8) {bs : List UInt8} {x : Nat} : 0x80 ≤ b.toNat → Encodes bs x →
      Encodes (b :: bs) (b.toNat % 128 + 128 * x)

/-- No encoding of the number is shorter. -/
structure Shortest (bytes : List UInt8) (x : Nat) : Prop where
  encodes : Encodes bytes x
  least : ∀ other, Encodes other x → bytes.length ≤ other.length

def encode (x : Nat) : List UInt8 :=
  if x < 0x80 then [UInt8.ofNat x] else UInt8.ofNat (x % 128 + 128) :: encode (x / 128)
termination_by x

variable {bytes : List UInt8} {x : Nat}

@[simp] theorem value_nil : value [] = 0 := rfl

@[simp] theorem value_cons (b : UInt8) (bs : List UInt8) :
    value (b :: bs) = b.toNat % 128 + 128 * value bs := by
  rw [value, List.map_cons, Nat.ofDigits_cons, value]

theorem Encodes.value_eq (h : Encodes bytes x) : value bytes = x := by
  induction h with
  | last b hb => rw [value_cons, value_nil, Nat.mod_eq_of_lt hb, Nat.mul_zero, Nat.add_zero]
  | more b hb _ ih => rw [value_cons, ih]

theorem encode_of_lt (h : x < 0x80) : encode x = [UInt8.ofNat x] := by
  rw [encode, if_pos h]

theorem encode_of_le (h : 0x80 ≤ x) :
    encode x = UInt8.ofNat (x % 128 + 128) :: encode (x / 128) := by
  rw [encode, if_neg (Nat.not_lt.mpr h)]

theorem encodes_encode (x : Nat) : Encodes (encode x) x := by
  induction x using Nat.strong_induction_on with
  | _ x ih =>
    by_cases hlast : x < 0x80
    · have hb : (UInt8.ofNat x).toNat = x := UInt8.toNat_ofNat_of_lt' (show x < 256 by omega)
      have hone := Encodes.last (UInt8.ofNat x) (by rwa [hb])
      rwa [hb, ← encode_of_lt hlast] at hone
    · have hb : (UInt8.ofNat (x % 128 + 128)).toNat = x % 128 + 128 :=
        UInt8.toNat_ofNat_of_lt' (show x % 128 + 128 < 256 by omega)
      have hmore := Encodes.more (UInt8.ofNat (x % 128 + 128)) (by omega) (ih (x / 128) (by omega))
      have hx : (x % 128 + 128) % 128 + 128 * (x / 128) = x := by omega
      rwa [hb, hx, ← encode_of_le (Nat.not_lt.mp hlast)] at hmore

/-- The groups behind the first one. -/
theorem encode_add (b : UInt8) (hb : 0x80 ≤ b.toNat) (hx : 0x80 ≤ b.toNat % 128 + 128 * x) :
    encode (b.toNat % 128 + 128 * x) = b :: encode x := by
  have hlt := b.toNat_lt
  have hdiv : (b.toNat % 128 + 128 * x) / 128 = x := by omega
  have hmod : (b.toNat % 128 + 128 * x) % 128 + 128 = b.toNat := by omega
  rw [encode_of_le hx, hdiv, hmod, UInt8.ofNat_toNat]

theorem length_encode_pos (x : Nat) : 0 < (encode x).length := by
  rw [encode]
  split
  · exact Nat.one_pos
  · exact Nat.succ_pos _

theorem length_encode_le (h : Encodes bytes x) : (encode x).length ≤ bytes.length := by
  induction h with
  | last b hb => rw [encode_of_lt hb]; exact Nat.le_refl _
  | @more b bs x hb _ ih =>
    by_cases hx : 0x80 ≤ b.toNat % 128 + 128 * x
    · rw [encode_add b hb hx]
      exact Nat.succ_le_succ ih
    · rw [encode_of_lt (Nat.not_le.mp hx)]
      exact Nat.succ_le_succ (Nat.zero_le _)

/-- Two encodings of one length are the same. -/
theorem eq_encode_of_length (h : Encodes bytes x) (hlength : bytes.length = (encode x).length) :
    bytes = encode x := by
  induction h with
  | last b hb => rw [encode_of_lt hb, UInt8.ofNat_toNat]
  | @more b bs x hb hbs ih =>
    have hpos := (length_encode_pos x).trans_le (length_encode_le hbs)
    by_cases hx : 0x80 ≤ b.toNat % 128 + 128 * x
    · rw [encode_add b hb hx] at hlength ⊢
      rw [ih (Nat.succ.inj hlength)]
    · rw [encode_of_lt (Nat.not_le.mp hx)] at hlength
      rw [Nat.succ.inj hlength] at hpos
      cases hpos

/-- There is one shortest encoding. -/
theorem shortest_iff : Shortest bytes x ↔ bytes = encode x := by
  constructor
  · intro h
    have hle := h.least _ (encodes_encode x)
    exact eq_encode_of_length h.encodes (Nat.le_antisymm hle (length_encode_le h.encodes))
  · rintro rfl
    exact ⟨encodes_encode x, fun _ => length_encode_le⟩

/-- Encoding what some bytes make up, reduced to `m` values, gives them back exactly where they are
    the shortest encoding of one of these values. -/
theorem encode_value_iff (m : Nat) (hm : 0 < m) :
    encode (value bytes % m) = bytes ↔ ∃ x < m, Shortest bytes x := by
  constructor
  · intro h
    exact ⟨value bytes % m, Nat.mod_lt _ hm, shortest_iff.mpr h.symm⟩
  · rintro ⟨x, hx, hshortest⟩
    rw [hshortest.encodes.value_eq, Nat.mod_eq_of_lt hx]
    exact (shortest_iff.mp hshortest).symm

end Leb128

import Mathlib.Logic.Function.Basic
import Mathlib.Tactic.Common

/-!
# Counting over a family

The number of the first `n` members of a family that have a property, and what it becomes when
one member changes.
-/

universe u

namespace Tally

variable {α : Type u} {p : α → Bool} {f : Nat → α} {n w : Nat}

/-- The number of the members below `n` that have the property. -/
def tally (p : α → Bool) (f : Nat → α) (n : Nat) : Nat := (List.range n).countP fun i => p (f i)

theorem tally_succ : tally p f (n + 1) = tally p f n + (p (f n)).toNat := by
  rw [tally, List.range_succ, List.countP_append, ← tally]
  cases hp : p (f n) <;> simp [hp]

/-- Members from `n` on do not count. -/
theorem tally_update_of_le (h : n ≤ w) (x : α) :
    tally p (Function.update f w x) n = tally p f n := by
  apply List.countP_congr
  intro i hi
  have hne : i ≠ w := Nat.ne_of_lt (Nat.lt_of_lt_of_le (List.mem_range.mp hi) h)
  rw [Function.update_of_ne hne]

/-- One member changes. -/
theorem tally_update (h : w < n) (x : α) :
    tally p (Function.update f w x) n + (p (f w)).toNat = tally p f n + (p x).toNat := by
  induction n with
  | zero => exact absurd h (Nat.not_lt_zero w)
  | succ n ih =>
    rw [tally_succ, tally_succ]
    by_cases hw : w = n
    · subst hw
      rw [tally_update_of_le (Nat.le_refl w), Function.update_self]
      omega
    · have hlt : w < n := by omega
      have hrest := ih hlt
      rw [Function.update_of_ne (Ne.symm hw)]
      omega

theorem tally_eq_zero : tally p f n = 0 ↔ ∀ i < n, p (f i) = false := by
  simp [tally, List.countP_eq_zero]

theorem tally_pos (h : w < n) (hp : p (f w) = true) : 0 < tally p f n := by
  apply Nat.pos_of_ne_zero
  intro hzero
  rw [tally_eq_zero.mp hzero w h] at hp
  cases hp

end Tally

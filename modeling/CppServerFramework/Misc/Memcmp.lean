import Mathlib.Tactic.Common

/-!
# Comparing memory

`memcmp` compares a number of elements.  Two sequences that are compared as far as the shorter
one goes, and then by their lengths, are compared lexicographically.
-/

universe u

namespace Memcmp

variable {α : Type u} [Ord α] {p q : List α}

/-- The sign of `memcmp(p, q, n)`, where both have `n` elements. -/
def memcmp : Nat → List α → List α → Ordering
  | 0, _, _ => .eq
  | n + 1, a :: p, b :: q => (compare a b).then (memcmp n p q)
  | _ + 1, [], _ | _ + 1, _ :: _, [] => .eq

/-- What lies behind the elements compared does not matter. -/
theorem memcmp_take {n i j : Nat} (hi : n ≤ i) (hj : n ≤ j) :
    memcmp n (p.take i) (q.take j) = memcmp n p q := by
  induction n generalizing i j p q with
  | zero => rw [memcmp, memcmp]
  | succ n ih =>
    obtain ⟨i, rfl⟩ := Nat.exists_eq_add_of_le' (Nat.le_of_add_left_le hi)
    obtain ⟨j, rfl⟩ := Nat.exists_eq_add_of_le' (Nat.le_of_add_left_le hj)
    cases p with
    | nil => rw [List.take_nil, memcmp, memcmp]
    | cons a p =>
      cases q with
      | nil => rw [List.take_nil, List.take_succ_cons, memcmp, memcmp]
      | cons b q =>
        rw [List.take_succ_cons, List.take_succ_cons, memcmp, memcmp]
        rw [ih (Nat.le_of_succ_le_succ hi) (Nat.le_of_succ_le_succ hj)]

/-- The common part first and then the lengths. -/
theorem compare_eq_memcmp (p q : List α) :
    compare p q =
      (memcmp (min p.length q.length) p q).then (compare p.length q.length) := by
  induction p generalizing q with
  | nil =>
    rw [List.length_nil, Nat.zero_min, memcmp]
    cases q with
    | nil => rw [List.compare_nil_nil]; rfl
    | cons b q => rw [List.compare_nil_cons, List.length_cons]; rfl
  | cons a p ih =>
    cases q with
    | nil => rw [List.compare_cons_nil]; rfl
    | cons b q =>
      have hlength : compare (p.length + 1) (q.length + 1) = compare p.length q.length := by
        simp only [Nat.compare_eq_ite_lt, Nat.add_lt_add_iff_right]
      rw [List.length_cons, List.length_cons, Nat.succ_min_succ, memcmp]
      rw [List.compare_cons_cons, ih q, Ordering.then_assoc, hlength]

/-- Sequences are the same where they have the same length and do not differ. -/
theorem eq_iff_memcmp [Std.LawfulEqOrd α] (p q : List α) :
    p = q ↔ p.length = q.length ∧ memcmp p.length p q = .eq := by
  rw [← Std.compare_eq_iff_eq, compare_eq_memcmp]
  constructor
  · intro h
    obtain ⟨hsame, hlength⟩ := Ordering.then_eq_eq.mp h
    rw [Std.compare_eq_iff_eq] at hlength
    rw [← hlength, Nat.min_self] at hsame
    exact ⟨hlength, hsame⟩
  · rintro ⟨hlength, hsame⟩
    rw [← hlength, Nat.min_self, hsame, Std.compare_self]
    rfl

/-- A terminator before which nothing comes does not change the order. -/
theorem compare_terminated [Std.LawfulEqOrd α] [Std.OrientedOrd α] {z : α}
    (hz : ∀ a, compare z a ≠ .gt) (p q : List α) :
    compare (p ++ [z]) (q ++ [z]) = compare p q := by
  have hend : ∀ a, (compare z a).then .lt = .lt := by
    intro a
    have hne := hz a
    cases hc : compare z a with
    | lt | eq => rfl
    | gt => exact absurd hc hne
  induction p generalizing q with
  | nil =>
    cases q with
    | nil => exact Std.compare_self
    | cons b q =>
      rw [List.nil_append, List.cons_append, List.compare_cons_cons, List.compare_nil_cons]
      cases q <;> exact hend b
  | cons a p ih =>
    cases q with
    | nil =>
      have hswap : (compare a z).then .gt = .gt := by
        rw [Std.OrientedOrd.eq_swap (a := a)]
        have hne := hz a
        cases hc : compare z a with
        | lt | eq => rfl
        | gt => exact absurd hc hne
      rw [List.nil_append, List.cons_append, List.compare_cons_cons, List.compare_cons_nil]
      cases p <;> exact hswap
    | cons b q =>
      rw [List.cons_append, List.cons_append, List.compare_cons_cons, List.compare_cons_cons, ih]

end Memcmp

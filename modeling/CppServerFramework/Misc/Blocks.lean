import Mathlib.Tactic.Common

/-!
# Sequences stored in blocks of equal size

A list of blocks that all have length `n` stores the sequence `blocks.flatten`: offset
`k * n + i` with `i < n` lies in block `k` at index `i`.  The lemmas below move the two
accesses, reading a slice and overwriting one in place, between a block and the sequence.
-/

universe u

namespace Blocks

variable {α : Type u}

/-- The list `l` with the elements from index `i` on replaced by those of `xs`. -/
def overwrite (l : List α) (i : Nat) (xs : List α) : List α :=
  l.take i ++ xs ++ l.drop (i + xs.length)

/-- The `n` elements of `l` from index `i` on. -/
def slice (l : List α) (i n : Nat) : List α := (l.drop i).take n

theorem overwrite_nil (l : List α) (i : Nat) : overwrite l i [] = l := by
  simp [overwrite]

theorem length_overwrite {l xs : List α} {i : Nat} (h : i + xs.length ≤ l.length) :
    (overwrite l i xs).length = l.length := by
  simp only [overwrite, List.length_append, List.length_take, List.length_drop]
  omega

/-- Overwriting a slice piece by piece. -/
theorem overwrite_append {l xs ys : List α} {i : Nat} (h : i ≤ l.length) :
    overwrite (overwrite l i xs) (i + xs.length) ys = overwrite l i (xs ++ ys) := by
  have hpre : (l.take i ++ xs).length = i + xs.length := by
    simp only [List.length_append, List.length_take]
    omega
  have htake : (l.take i ++ xs ++ l.drop (i + xs.length)).take (i + xs.length) =
      l.take i ++ xs := by
    rw [← hpre, List.take_left']
    rfl
  have hdrop : (l.take i ++ xs ++ l.drop (i + xs.length)).drop (i + xs.length + ys.length) =
      l.drop (i + xs.length + ys.length) := by
    conv_lhs => arg 1; rw [← hpre]
    rw [List.drop_length_add_append, List.drop_drop]
  unfold overwrite
  rw [htake, hdrop, List.length_append, List.append_assoc (l.take i), Nat.add_assoc]

theorem slice_add (l : List α) (i m n : Nat) :
    slice l i (m + n) = slice l i m ++ slice l (i + m) n := by
  rw [slice, slice, slice, List.take_add, List.drop_drop]

theorem length_slice {l : List α} {i n : Nat} (h : i + n ≤ l.length) :
    (slice l i n).length = n := by
  rw [slice, List.length_take, List.length_drop]
  omega

/-- What has been put in place is found there. -/
theorem slice_overwrite {l xs : List α} {i : Nat} (h : i ≤ l.length) :
    slice (overwrite l i xs) i xs.length = xs := by
  have htake : (l.take i).length = i := List.length_take_of_le h
  rw [slice, overwrite, List.append_assoc, List.drop_left' htake, List.take_left']
  rfl

/-- Overwriting a prefix of a longer sequence, past the end of the prefix or not. -/
theorem take_overwrite_append {l r xs : List α} {i n : Nat} (hi : i ≤ n) (hn : n ≤ l.length) :
    (overwrite (l ++ r) i xs).take (max n (i + xs.length)) = overwrite (l.take n) i xs := by
  have hpre : ((l ++ r).take i ++ xs).length = i + xs.length := by
    rw [List.length_append, List.length_take, List.length_append, Nat.min_eq_left (by omega)]
  have hleft : (l ++ r).take i = (l.take n).take i := by
    rw [List.take_append_of_le_length (by omega), List.take_take, Nat.min_eq_left hi]
  have hright : ((l ++ r).drop (i + xs.length)).take (n - (i + xs.length)) =
      (l.take n).drop (i + xs.length) := by
    rw [List.drop_take]
    by_cases hlong : i + xs.length ≤ n
    · rw [List.drop_append_of_le_length (by omega),
        List.take_append_of_le_length (by rw [List.length_drop]; omega)]
    · rw [Nat.sub_eq_zero_of_le (by omega), List.take_zero, List.take_zero]
  have hmax : max n (i + xs.length) = ((l ++ r).take i ++ xs).length + (n - (i + xs.length)) := by
    rw [hpre]
    omega
  rw [overwrite, overwrite, ← hright, ← hleft, hmax, List.take_length_add_append]

theorem slice_take {l : List α} {i m n : Nat} (h : i + m ≤ n) :
    slice (l.take n) i m = slice l i m := by
  rw [slice, slice, List.drop_take, List.take_take, Nat.min_eq_left (by omega)]

theorem slice_append_left {l r : List α} {i n : Nat} (h : i + n ≤ l.length) :
    slice (l ++ r) i n = slice l i n := by
  rw [slice, slice, List.drop_append_of_le_length (by omega),
    List.take_append_of_le_length (by rw [List.length_drop]; omega)]

/-! ## Blocks of length `n` -/

section
variable {blocks : List (List α)} {n : Nat}

theorem length_flatten (h : ∀ b ∈ blocks, b.length = n) :
    blocks.flatten.length = blocks.length * n := by
  induction blocks with
  | nil => simp
  | cons b bs ih =>
    rw [List.flatten_cons, List.length_append, h b (by simp),
      ih fun c hc => h c (List.mem_cons_of_mem _ hc), List.length_cons, Nat.succ_mul, Nat.add_comm]

/-- The sequence around block `k`. -/
theorem flatten_split {k : Nat} {b : List α} (hk : blocks[k]? = some b) :
    blocks.flatten = (blocks.take k).flatten ++ (b ++ (blocks.drop (k + 1)).flatten) := by
  obtain ⟨hlt, hget⟩ := List.getElem?_eq_some_iff.mp hk
  conv_lhs => rw [← List.take_append_drop k blocks]
  rw [List.flatten_append, List.drop_eq_getElem_cons hlt, List.flatten_cons, hget]

theorem length_flatten_take (h : ∀ b ∈ blocks, b.length = n) {k : Nat} (hk : k ≤ blocks.length) :
    (blocks.take k).flatten.length = k * n := by
  rw [length_flatten fun b hb => h b (List.mem_of_mem_take hb), List.length_take,
    Nat.min_eq_left hk]

/-- Overwriting inside block `k` overwrites the sequence. -/
theorem flatten_set_overwrite (h : ∀ b ∈ blocks, b.length = n) {k i : Nat} {b xs : List α}
    (hk : blocks[k]? = some b) (hi : i + xs.length ≤ n) :
    (blocks.set k (overwrite b i xs)).flatten = overwrite blocks.flatten (k * n + i) xs := by
  obtain ⟨hlt, -⟩ := List.getElem?_eq_some_iff.mp hk
  have hb : b.length = n := h b (List.mem_of_getElem? hk)
  have hpre := length_flatten_take h (Nat.le_of_lt hlt)
  rw [List.set_eq_take_append_cons_drop, if_pos hlt, List.flatten_append, List.flatten_cons,
    flatten_split hk]
  generalize (blocks.take k).flatten = pre at hpre
  generalize (blocks.drop (k + 1)).flatten = post
  unfold overwrite
  rw [← hpre, List.take_length_add_append, List.take_append_of_le_length (by omega),
    Nat.add_assoc pre.length, List.drop_length_add_append,
    List.drop_append_of_le_length (by omega)]
  simp only [List.append_assoc]

/-- Reading inside block `k` reads the sequence. -/
theorem slice_flatten (h : ∀ b ∈ blocks, b.length = n) {k i m : Nat} {b : List α}
    (hk : blocks[k]? = some b) (hi : i + m ≤ n) :
    slice blocks.flatten (k * n + i) m = slice b i m := by
  obtain ⟨hlt, -⟩ := List.getElem?_eq_some_iff.mp hk
  have hb : b.length = n := h b (List.mem_of_getElem? hk)
  have hpre := length_flatten_take h (Nat.le_of_lt hlt)
  rw [flatten_split hk, slice, ← hpre, List.drop_length_add_append]
  exact slice_append_left (by omega)

theorem length_of_mem_set (h : ∀ b ∈ blocks, b.length = n) {k : Nat} {c : List α}
    (hc : c.length = n) : ∀ b ∈ blocks.set k c, b.length = n := by
  intro b hb
  rcases List.mem_or_eq_of_mem_set hb with hb | rfl
  · exact h b hb
  · exact hc

end
end Blocks

import CppServerFramework.Misc.OrderedSet

/-!
# Ordered maps with equal keys

`std::multimap`, as the list of its entries in order.  An entry is put behind those with an
equivalent key, so that they stay in the order of their insertion.
-/

universe u v

namespace MultiMap

open OrderedSet (StrictOrder)

variable {κ : Type u} {β : Type v} (lt : κ → κ → Bool)

/-- `insert(e)`: at the upper bound of its key. -/
def insert (e : κ × β) : List (κ × β) → List (κ × β)
  | [] => [e]
  | b :: l => if lt e.1 b.1 then e :: b :: l else b :: insert e l

/-- `equal_range(k)`: from the lower bound of the key to its upper bound. -/
def equalRange (k : κ) (l : List (κ × β)) : List (κ × β) :=
  (l.dropWhile fun b => lt b.1 k).takeWhile fun b => !lt k b.1

/-- No entry has a key behind that of a later one. -/
def Sorted (l : List (κ × β)) : Prop := l.Pairwise fun a b => lt b.1 a.1 = false

/-- Keys of which neither is before the other are equal. -/
structure TotalOrder : Prop extends StrictOrder lt where
  total (a b : κ) : lt a b = false → lt b a = false → a = b

variable {lt} {a b c k : κ} {e x : κ × β} {l : List (κ × β)}

namespace TotalOrder

theorem lt_of_lt_of_le (h : TotalOrder lt) (hab : lt a b = true) (hcb : lt c b = false) :
    lt a c = true := by
  cases hbc : lt b c with
  | true => exact h.trans a b c hab hbc
  | false => rwa [← h.total b c hbc hcb]

theorem le_trans (h : TotalOrder lt) (hba : lt b a = false) (hcb : lt c b = false) :
    lt c a = false := by
  cases hca : lt c a with
  | false => rfl
  | true =>
    rw [h.lt_of_lt_of_le hca hba] at hcb
    cases hcb

theorem eq_iff (h : TotalOrder lt) : a = b ↔ lt a b = false ∧ lt b a = false := by
  constructor
  · rintro rfl
    exact ⟨h.irrefl a, h.irrefl a⟩
  · exact fun hab => h.total a b hab.1 hab.2

end TotalOrder

theorem mem_insert : x ∈ insert lt e l ↔ x = e ∨ x ∈ l := by
  induction l with
  | nil => simp [insert]
  | cons b l ih =>
    rw [insert]
    split
    · rw [List.mem_cons]
    · rw [List.mem_cons, ih, List.mem_cons, or_left_comm]

theorem Sorted.insert (h : TotalOrder lt) (hs : Sorted lt l) : Sorted lt (insert lt e l) := by
  induction l with
  | nil => exact List.pairwise_singleton _ _
  | cons b l ih =>
    obtain ⟨hb, hl⟩ := List.pairwise_cons.mp hs
    rw [MultiMap.insert]
    split
    · next hlt =>
      have hle : lt b.1 e.1 = false := by
        cases hbe : lt b.1 e.1 with
        | false => rfl
        | true => exact absurd (h.trans _ _ _ hlt hbe) (by simp [h.irrefl])
      refine List.pairwise_cons.mpr ⟨fun x hx => ?_, hs⟩
      rcases List.mem_cons.mp hx with rfl | hx
      · exact hle
      · exact h.le_trans hle (hb x hx)
    · next hle =>
      refine List.pairwise_cons.mpr ⟨fun x hx => ?_, ih hl⟩
      rcases mem_insert.mp hx with rfl | hx
      · exact Bool.eq_false_iff.mpr hle
      · exact hb x hx

/-- A new entry comes behind those with its key. -/
theorem filter_insert [DecidableEq κ] (h : TotalOrder lt) (hs : Sorted lt l) :
    (insert lt e l).filter (·.1 = k) =
      l.filter (·.1 = k) ++ [e].filter (·.1 = k) := by
  induction l with
  | nil => rfl
  | cons b l ih =>
    obtain ⟨hb, hl⟩ := List.pairwise_cons.mp hs
    rw [insert]
    split
    · next hlt =>
      by_cases hk : e.1 = k
      · have hnone : (b :: l).filter (·.1 = k) = [] := by
          rw [List.filter_eq_nil_iff]
          intro x hx
          have hle : lt x.1 b.1 = false := by
            rcases List.mem_cons.mp hx with rfl | hx
            · exact h.irrefl _
            · exact hb x hx
          have hex := h.lt_of_lt_of_le hlt hle
          rw [decide_eq_true_eq, ← hk]
          intro heq
          rw [heq, h.irrefl] at hex
          cases hex
        rw [List.filter_cons, hnone]
        simp [hk]
      · simp [hk]
    · rw [List.filter_cons, List.filter_cons, ih hl]
      split <;> rfl

theorem takeWhile_eq_filter {p : κ × β → Bool}
    (hp : l.Pairwise fun a b => p b = true → p a = true) : l.takeWhile p = l.filter p := by
  induction l with
  | nil => rfl
  | cons b l ih =>
    obtain ⟨hb, hl⟩ := List.pairwise_cons.mp hp
    rw [List.takeWhile_cons, List.filter_cons]
    split
    · rw [ih hl]
    · next hnot =>
      symm
      rw [List.filter_eq_nil_iff]
      exact fun x hx hpx => hnot (hb x hx hpx)

/-- The range of a key has the entries with that key. -/
theorem equalRange_eq_filter [DecidableEq κ] (h : TotalOrder lt) (hs : Sorted lt l) :
    equalRange lt k l = l.filter (·.1 = k) := by
  induction l with
  | nil => rfl
  | cons b l ih =>
    obtain ⟨hb, hl⟩ := List.pairwise_cons.mp hs
    by_cases hlt : lt b.1 k = true
    · have hne : b.1 ≠ k := by
        intro heq
        rw [heq, h.irrefl] at hlt
        cases hlt
      rw [equalRange, List.dropWhile_cons, if_pos hlt, List.filter_cons,
        if_neg (by simpa using hne)]
      exact ih hl
    · have hle : lt b.1 k = false := Bool.eq_false_iff.mpr hlt
      have hall : ∀ x ∈ b :: l, lt x.1 k = false := by
        intro x hx
        rcases List.mem_cons.mp hx with rfl | hx
        · exact hle
        · exact h.le_trans hle (hb x hx)
      rw [equalRange, List.dropWhile_cons, if_neg hlt, takeWhile_eq_filter]
      · refine List.filter_congr fun x hx => ?_
        rw [Bool.eq_iff_iff, decide_eq_true_eq, h.eq_iff, Bool.not_eq_true']
        exact ⟨fun hkx => ⟨hall x hx, hkx⟩, And.right⟩
      · refine List.Pairwise.imp (fun {x y} hyx hky => ?_) hs
        rw [Bool.not_eq_true'] at hky ⊢
        exact h.le_trans hyx hky

end MultiMap

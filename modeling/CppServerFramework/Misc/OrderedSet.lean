import Mathlib.Data.List.TakeWhile
import Mathlib.Tactic.Common

/-!
# Ordered sets

`std::set` with a comparator `lt`, as the list of its elements in order.  Two elements are the
same to the set when neither is before the other.
-/

universe u

namespace OrderedSet

variable {α : Type u} (lt : α → α → Bool)

/-- Neither element is before the other. -/
def equiv (a b : α) : Bool := !lt a b && !lt b a

/-- `insert(a)`: nothing happens when an equivalent element is there. -/
def insert (a : α) : List α → List α
  | [] => [a]
  | b :: l => if lt a b then a :: b :: l else if lt b a then b :: insert a l else b :: l

/-- `find(a)`. -/
def find (a : α) (l : List α) : Option α := l.find? (equiv lt a)

/-- `erase(find(a))`, where there is such an element. -/
def erase (a : α) (l : List α) : List α := l.eraseP (equiv lt a)

/-- The elements of `[begin(), upper_bound(a))`, where `after b` says that `a` is before `b`. -/
def upTo (after : α → Bool) (l : List α) : List α := l.takeWhile fun b => !after b

/-- Every element is before the ones behind it. -/
def Sorted (l : List α) : Prop := l.Pairwise fun a b => lt a b = true

/-- What a comparator has to be. -/
structure StrictOrder : Prop where
  irrefl (a : α) : lt a a = false
  trans (a b c : α) : lt a b = true → lt b c = true → lt a c = true

variable {lt} {a b : α} {l : List α}

theorem Sorted.nodup (h : StrictOrder lt) (hs : Sorted lt l) : l.Nodup := by
  apply List.Pairwise.imp _ hs
  intro a b hab heq
  rw [heq, h.irrefl] at hab
  cases hab

/-! ### Insertion -/

theorem mem_insert_of_comparable (h : ∀ b ∈ l, lt a b = true ∨ lt b a = true) :
    b ∈ insert lt a l ↔ b = a ∨ b ∈ l := by
  induction l with
  | nil => simp [insert]
  | cons c l ih =>
    rw [insert]
    split
    · simp
    · rename_i hac
      have hca := (h c (by simp)).resolve_left hac
      rw [if_pos hca, List.mem_cons, ih fun d hd => h d (List.mem_cons_of_mem _ hd)]
      simp only [List.mem_cons]
      tauto

theorem mem_of_mem_insert (h : b ∈ insert lt a l) : b = a ∨ b ∈ l := by
  induction l with
  | nil => exact Or.inl (List.mem_singleton.mp h)
  | cons c l ih =>
    rw [insert] at h
    split at h
    · exact List.mem_cons.mp h
    · split at h
      · rcases List.mem_cons.mp h with rfl | h
        · exact Or.inr (by simp)
        · exact (ih h).imp_right (List.mem_cons_of_mem _)
      · exact Or.inr h

theorem Sorted.insert (h : StrictOrder lt) (hs : Sorted lt l) : Sorted lt (insert lt a l) := by
  induction l with
  | nil => exact List.pairwise_singleton _ _
  | cons c l ih =>
    have hcons := List.pairwise_cons.mp hs
    rw [OrderedSet.insert]
    split
    · rename_i hac
      refine List.pairwise_cons.mpr ⟨?_, hs⟩
      intro d hd
      rcases List.mem_cons.mp hd with rfl | hd
      · exact hac
      · exact h.trans _ _ _ hac (hcons.1 d hd)
    · split
      · rename_i hca
        refine List.pairwise_cons.mpr ⟨?_, ih hcons.2⟩
        intro d hd
        rcases mem_of_mem_insert hd with rfl | hd
        · exact hca
        · exact hcons.1 d hd
      · exact hs

/-- An element behind all others is inserted at the end. -/
theorem insert_of_last (h : StrictOrder lt) (hlast : ∀ b ∈ l, lt b a = true) :
    OrderedSet.insert lt a l = l ++ [a] := by
  induction l with
  | nil => rfl
  | cons b l ih =>
    have hba := hlast b (by simp)
    have hab : lt a b = false := by
      cases hab : lt a b with
      | false => rfl
      | true =>
        have haa := h.trans a b a hab hba
        rw [h.irrefl] at haa
        cases haa
    simp [OrderedSet.insert, hab, hba, ih fun c hc => hlast c (by simp [hc])]

/-- The elements of a set, inserted in their order, make the set. -/
theorem Sorted.foldl_insert (h : StrictOrder lt) (hs : Sorted lt l) :
    l.foldl (fun s a => OrderedSet.insert lt a s) [] = l := by
  have hmore : ∀ rest done, Sorted lt (done ++ rest) →
      rest.foldl (fun s a => OrderedSet.insert lt a s) done = done ++ rest := by
    intro rest
    induction rest with
    | nil => simp
    | cons a rest ih =>
      intro done hdone
      have hlast : ∀ b ∈ done, lt b a = true := fun b hb =>
        (List.pairwise_append.mp hdone).2.2 b hb a (by simp)
      rw [List.foldl_cons, insert_of_last h hlast, ih (done ++ [a]) (by simpa using hdone)]
      simp
  exact hmore l [] hs

/-! ### Finding and erasing -/

/-- In a sorted list an element is equivalent to itself only. -/
theorem Sorted.eq_of_equiv (hs : Sorted lt l) (ha : a ∈ l) (hb : b ∈ l)
    (he : equiv lt a b = true) : a = b := by
  simp only [equiv, Bool.and_eq_true, Bool.not_eq_true'] at he
  induction l with
  | nil => cases ha
  | cons c l ih =>
    have hcons := List.pairwise_cons.mp hs
    rcases List.mem_cons.mp ha with rfl | ha <;> rcases List.mem_cons.mp hb with rfl | hb
    · rfl
    · rw [hcons.1 b hb] at he
      cases he.1
    · rename_i hmem
      rw [hcons.1 a hmem] at he
      cases he.2
    · exact ih hcons.2 ha hb

theorem StrictOrder.equiv_self (h : StrictOrder lt) (a : α) : equiv lt a a = true := by
  simp [equiv, h.irrefl]

theorem find_of_mem (h : StrictOrder lt) (hs : Sorted lt l) (ha : a ∈ l) :
    find lt a l = some a := by
  cases hf : find lt a l with
  | none =>
    have hn := List.find?_eq_none.mp hf a ha
    exact absurd (h.equiv_self a) hn
  | some b =>
    have heq := List.find?_some hf
    exact congrArg some (hs.eq_of_equiv ha (List.mem_of_find?_eq_some hf) heq).symm

theorem Sorted.sublist {l' : List α} (hs : Sorted lt l) (h : l'.Sublist l) : Sorted lt l' :=
  List.Pairwise.sublist h hs

theorem Sorted.erase (hs : Sorted lt l) (a : α) : Sorted lt (erase lt a l) :=
  hs.sublist List.eraseP_sublist

theorem mem_of_mem_erase (h : b ∈ erase lt a l) : b ∈ l := List.mem_of_mem_eraseP h

theorem mem_erase_of_mem (h : StrictOrder lt) (hs : Sorted lt l) (ha : a ∈ l) :
    b ∈ erase lt a l ↔ b ∈ l ∧ b ≠ a := by
  obtain ⟨c, l₁, l₂, hfree, hc, hl, herase⟩ := List.exists_of_eraseP ha (h.equiv_self a)
  have hca : c = a := (hs.eq_of_equiv ha (by simp [hl]) hc).symm
  subst hca
  have hnodup := hl ▸ hs.nodup h
  rw [erase, herase, hl]
  have hnotMem := (List.nodup_cons.mp (List.perm_middle.nodup_iff.mp hnodup)).1
  constructor
  · intro hb
    refine ⟨?_, fun heq => hnotMem (heq ▸ hb)⟩
    rcases List.mem_append.mp hb with hb | hb
    · exact List.mem_append_left _ hb
    · exact List.mem_append_right _ (List.mem_cons_of_mem _ hb)
  · rintro ⟨hb, hne⟩
    simpa [hne] using hb

/-! ### The part up to an element -/

variable {after : α → Bool}

theorem not_after_of_mem_upTo (h : b ∈ upTo after l) : after b = false := by
  simpa using List.mem_takeWhile_imp h

/-- Where what is behind an element that is after another is after it too, the part up to an
    element has all those that it is not before. -/
theorem upTo_eq_filter (hs : Sorted lt l)
    (hafter : ∀ a b, lt a b = true → after a = true → after b = true) :
    upTo after l = l.filter fun b => !after b := by
  induction l with
  | nil => rfl
  | cons a l ih =>
    obtain ⟨ha, hs⟩ := List.pairwise_cons.mp hs
    rw [upTo, List.takeWhile_cons, List.filter_cons]
    split
    · exact congrArg (a :: ·) (ih hs)
    · rename_i hafter_a
      refine (List.filter_eq_nil_iff.mpr fun b hb => ?_).symm
      simp [hafter a b (ha b hb) (by simpa using hafter_a)]

/-- Two comparators that agree on the elements of a list sort it alike. -/
theorem Sorted.congr {lt' : α → α → Bool} (hs : Sorted lt l)
    (h : ∀ a ∈ l, ∀ b ∈ l, lt a b = true → lt' a b = true) : Sorted lt' l :=
  List.Pairwise.imp_of_mem (fun ha hb => h _ ha _ hb) hs

end OrderedSet

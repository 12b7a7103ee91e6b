import Mathlib.Data.Multiset.UnionInter
import Mathlib.Tactic.Common

/-!
# Objects with one owner each

A heap gives an object for some addresses.  Whoever holds an address holds it under a tag, which
says what is known of the object there.  `Owned` says that the addresses held are those of the
objects, each held once and under a tag that fits.  The operations change one address at a time.
-/

universe u v w

namespace Ownership

variable {α : Type u} {β : Type v} {κ : Type w}

/-- The pairs of address and tag that are held in all places together account for the heap. -/
structure Owned (fits : κ → β → Prop) (heap : α → Option β) (held : Multiset (α × κ)) : Prop where
  nodup : (held.map Prod.fst).Nodup
  live : ∀ a, heap a ≠ none ↔ a ∈ held.map Prod.fst
  fits : ∀ p ∈ held, ∃ b, heap p.1 = some b ∧ fits p.2 b

variable {fits : κ → β → Prop} {heap : α → Option β} {held : Multiset (α × κ)} {a : α} {k k' : κ}

theorem Owned.nothing : Owned fits (fun _ : α => none) 0 :=
  ⟨by simp, by simp, by simp⟩

/-- Whoever holds an address finds an object there. -/
theorem Owned.get (h : Owned fits heap ((a, k) ::ₘ held)) : ∃ b, heap a = some b ∧ fits k b :=
  h.fits (a, k) (Multiset.mem_cons_self _ _)

theorem Owned.notMem (h : Owned fits heap ((a, k) ::ₘ held)) : a ∉ held.map Prod.fst := by
  have hnodup := h.nodup
  rw [Multiset.map_cons] at hnodup
  exact (Multiset.nodup_cons.mp hnodup).1

variable [DecidableEq α]

/-- The object is overwritten by its holder. -/
theorem Owned.write (h : Owned fits heap ((a, k) ::ₘ held)) {b : β} (hb : fits k' b) :
    Owned fits (Function.update heap a (some b)) ((a, k') ::ₘ held) := by
  have hmap : (((a, k') ::ₘ held).map Prod.fst) = (((a, k) ::ₘ held).map Prod.fst) := by
    rw [Multiset.map_cons, Multiset.map_cons]
  refine ⟨hmap ▸ h.nodup, fun x => ?_, fun p hp => ?_⟩
  · rw [hmap, ← h.live x]
    by_cases hx : x = a
    · obtain ⟨c, hc, -⟩ := h.get
      subst hx
      simp [hc]
    · rw [Function.update_of_ne hx]
  · rcases Multiset.mem_cons.mp hp with rfl | hp
    · exact ⟨b, Function.update_self .., hb⟩
    · obtain ⟨c, hc, hfits⟩ := h.fits p (Multiset.mem_cons_of_mem hp)
      have hne : p.1 ≠ a := fun heq => h.notMem (heq ▸ Multiset.mem_map_of_mem Prod.fst hp)
      exact ⟨c, by rw [Function.update_of_ne hne, hc], hfits⟩

/-- The holder learns something else of the object. -/
theorem Owned.retag (h : Owned fits heap ((a, k) ::ₘ held))
    (hk : ∀ b, heap a = some b → fits k b → fits k' b) :
    Owned fits heap ((a, k') ::ₘ held) := by
  obtain ⟨b, hb, hfits⟩ := h.get
  have hwrite := h.write (hk b hb hfits)
  rwa [← hb, Function.update_eq_self] at hwrite

/-- An object is made at an address where there was none. -/
theorem Owned.alloc (h : Owned fits heap held) (ha : heap a = none) {b : β} (hb : fits k b) :
    Owned fits (Function.update heap a (some b)) ((a, k) ::ₘ held) := by
  have hnot : a ∉ held.map Prod.fst := fun hmem => (h.live a).mpr hmem ha
  refine ⟨?_, fun x => ?_, fun p hp => ?_⟩
  · rw [Multiset.map_cons]
    exact Multiset.nodup_cons.mpr ⟨hnot, h.nodup⟩
  · rw [Multiset.map_cons, Multiset.mem_cons]
    by_cases hx : x = a
    · subst hx
      simp
    · rw [Function.update_of_ne hx, h.live x]
      simp [hx]
  · rcases Multiset.mem_cons.mp hp with rfl | hp
    · exact ⟨b, Function.update_self .., hb⟩
    · obtain ⟨c, hc, hfits⟩ := h.fits p hp
      have hne : p.1 ≠ a := fun heq => hnot (heq ▸ Multiset.mem_map_of_mem Prod.fst hp)
      exact ⟨c, by rw [Function.update_of_ne hne, hc], hfits⟩

/-- The holder deletes the object. -/
theorem Owned.free (h : Owned fits heap ((a, k) ::ₘ held)) :
    Owned fits (Function.update heap a none) held := by
  have hnodup := h.nodup
  rw [Multiset.map_cons] at hnodup
  refine ⟨(Multiset.nodup_cons.mp hnodup).2, fun x => ?_, fun p hp => ?_⟩
  · by_cases hx : x = a
    · subst hx
      simpa using h.notMem
    · rw [Function.update_of_ne hx, h.live x, Multiset.map_cons, Multiset.mem_cons]
      simp [hx]
  · obtain ⟨c, hc, hfits⟩ := h.fits p (Multiset.mem_cons_of_mem hp)
    have hne : p.1 ≠ a := fun heq => h.notMem (heq ▸ Multiset.mem_map_of_mem Prod.fst hp)
    exact ⟨c, by rw [Function.update_of_ne hne, hc], hfits⟩

/-- Anyone changes an object in a way that no tag notices. -/
theorem Owned.modify (h : Owned fits heap held) {b c : β} (ha : heap a = some b)
    (hb : ∀ k, fits k b → fits k c) : Owned fits (Function.update heap a (some c)) held := by
  refine ⟨h.nodup, fun x => ?_, fun p hp => ?_⟩
  · rw [← h.live x]
    by_cases hx : x = a
    · subst hx
      simp [ha]
    · rw [Function.update_of_ne hx]
  · obtain ⟨d, hd, hfits⟩ := h.fits p hp
    by_cases hx : p.1 = a
    · rw [hx, ha] at hd
      cases hd
      exact ⟨c, by rw [hx, Function.update_self], hb _ hfits⟩
    · exact ⟨d, by rw [Function.update_of_ne hx, hd], hfits⟩

/-- Each object is held once, and no address is held where there is none. -/
theorem Owned.count (h : Owned fits heap held) (a : α) :
    (held.map Prod.fst).count a = if heap a = none then 0 else 1 := by
  split
  · next hnone =>
    exact Multiset.count_eq_zero.mpr fun hmem => (h.live a).mpr hmem hnone
  · next hsome =>
    exact Multiset.count_eq_one_of_mem h.nodup ((h.live a).mp hsome)

end Ownership

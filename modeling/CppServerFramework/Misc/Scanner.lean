import Mathlib.Data.List.Basic
import Mathlib.Tactic.Common

/-!
# Table-driven scanners with actions

A scanner reads bytes through a table: from a state, a byte leads to a state and gives a list
of actions, which are taken at the position of the byte.  It stops in front of a byte that
leads to state `0`, and behind a byte one of whose actions breaks.  Only the actions depend on
anything but the bytes, so a scan is the list of its events, and scanning a text piece by piece
is scanning it at once as long as no piece stops it.
-/

universe u

/-- The transition from a state on the bytes of some ranges. -/
structure Edge (α : Type u) where
  ranges : List (Nat × Nat)
  target : Nat
  actions : List α

def Edge.covers {α : Type u} (e : Edge α) (b : UInt8) : Bool :=
  e.ranges.any fun r => r.1 ≤ b.toNat && b.toNat ≤ r.2

/-- The transitions from a state, and the one for all other bytes. -/
structure Row (α : Type u) where
  edges : List (Edge α)
  default : Nat × List α := (0, [])

structure Scanner (α : Type u) where
  start : Nat
  firstFinal : Nat
  breaks : α → Bool
  row : Nat → Row α

/-- A scan: the state it ends in, the position it stops at, and the actions taken with their
    positions. -/
structure Scanned (α : Type u) where
  state : Nat
  stop : Nat
  events : List (Nat × α)

namespace Scanner

variable {α : Type u} {M : Scanner α} {s t p : Nat} {as bs : List UInt8}

def next (M : Scanner α) (s : Nat) (b : UInt8) : Nat × List α :=
  match (M.row s).edges.find? fun e => e.covers b with
  | some e => (e.target, e.actions)
  | none => (M.row s).default

/-- The byte ends the scan behind it. -/
def breaksOn (M : Scanner α) (s : Nat) (b : UInt8) : Bool := (M.next s b).2.any M.breaks

/-- The scan of a text that starts at position `p`. -/
def scan (M : Scanner α) : Nat → Nat → List UInt8 → Scanned α
  | s, p, [] => ⟨s, p, []⟩
  | s, p, b :: bs =>
    let now := (M.next s b).2.map fun a => (p, a)
    if M.breaksOn s b then ⟨(M.next s b).1, p + 1, now⟩
    else if (M.next s b).1 = 0 then ⟨0, p, now⟩
    else
      let r := M.scan (M.next s b).1 (p + 1) bs
      ⟨r.state, r.stop, now ++ r.events⟩

/-- The state behind a text that does not stop the scan. -/
def passes (M : Scanner α) : Nat → List UInt8 → Option Nat
  | s, [] => some s
  | s, b :: bs =>
    if M.breaksOn s b ∨ (M.next s b).1 = 0 then none else M.passes (M.next s b).1 bs

/-- The text stops the scan behind its last byte. -/
def Accepts (M : Scanner α) (s : Nat) (bs : List UInt8) : Prop :=
  ∃ as b t, bs = as ++ [b] ∧ M.passes s as = some t ∧ M.breaksOn t b = true

/-- The states a scanner breaks into are its final states. -/
def BreaksFinal (M : Scanner α) : Prop :=
  ∀ s b, M.breaksOn s b = true ↔ M.firstFinal ≤ (M.next s b).1

theorem passes_of_append (h : M.passes s (as ++ bs) = some t) :
    ∃ u, M.passes s as = some u ∧ M.passes u bs = some t := by
  induction as generalizing s with
  | nil => exact ⟨s, rfl, h⟩
  | cons b as ih =>
    simp only [passes, List.cons_append] at h ⊢
    split at h
    · cases h
    · rename_i hb
      obtain ⟨u, hu, ht⟩ := ih h
      exact ⟨u, by rw [if_neg hb, hu], ht⟩

theorem passes_append (h : M.passes s as = some t) (bs : List UInt8) :
    M.passes s (as ++ bs) = M.passes t bs := by
  induction as generalizing s with
  | nil =>
    cases h
    rfl
  | cons b as ih =>
    simp only [passes, List.cons_append] at h ⊢
    split at h
    · cases h
    · rename_i hb
      rw [if_neg hb, ih h]

theorem scan_append (h : M.passes s as = some t) (p : Nat) (bs : List UInt8) :
    M.scan s p (as ++ bs) = ⟨(M.scan t (p + as.length) bs).state,
      (M.scan t (p + as.length) bs).stop,
      (M.scan s p as).events ++ (M.scan t (p + as.length) bs).events⟩ := by
  induction as generalizing s p with
  | nil =>
    cases h
    rfl
  | cons b as ih =>
    simp only [passes] at h
    split at h
    · cases h
    · rename_i hb
      rw [not_or] at hb
      simp only [scan, List.cons_append, if_neg hb.1, if_neg hb.2, ih h, List.length_cons]
      rw [Nat.add_right_comm, Nat.add_assoc p]
      simp [List.append_assoc]

theorem scan_passes (h : M.passes s as = some t) (p : Nat) :
    (M.scan s p as).state = t ∧ (M.scan s p as).stop = p + as.length := by
  have := M.scan_append h p []
  rw [List.append_nil] at this
  rw [this]
  exact ⟨rfl, rfl⟩

/-- A scan that breaks looks no further. -/
theorem scan_accepts (h : M.Accepts s as) (p : Nat) (bs : List UInt8) :
    M.scan s p (as ++ bs) = M.scan s p as := by
  obtain ⟨as, b, t, rfl, hpass, hbreak⟩ := h
  rw [List.append_assoc, scan_append hpass, scan_append hpass]
  simp [scan, hbreak]

theorem scan_accepts_stop (h : M.Accepts s as) (p : Nat) :
    (M.scan s p as).stop = p + as.length := by
  obtain ⟨as, b, t, rfl, hpass, hbreak⟩ := h
  rw [scan_append hpass]
  simp [scan, hbreak, Nat.add_assoc]

theorem scan_accepts_state (hM : M.BreaksFinal) (h : M.Accepts s as) (p : Nat) :
    M.firstFinal ≤ (M.scan s p as).state := by
  obtain ⟨as, b, t, rfl, hpass, hbreak⟩ := h
  rw [scan_append hpass]
  simpa [scan, hbreak] using (hM t b).mp hbreak

/-- A scan that does not break does not reach a final state. -/
theorem lt_of_passes (hM : M.BreaksFinal) (hs : s < M.firstFinal) (h : M.passes s as = some t) :
    t < M.firstFinal := by
  induction as generalizing s with
  | nil =>
    cases h
    exact hs
  | cons b as ih =>
    simp only [passes] at h
    split at h
    · cases h
    · rename_i hb
      rw [not_or] at hb
      exact ih (Nat.lt_of_not_le fun hle => hb.1 ((hM s b).mpr hle)) h

theorem ne_zero_of_passes (hs : s ≠ 0) (h : M.passes s as = some t) : t ≠ 0 := by
  induction as generalizing s with
  | nil =>
    cases h
    exact hs
  | cons b as ih =>
    simp only [passes] at h
    split at h
    · cases h
    · rename_i hb
      exact ih (not_or.mp hb).2 h

/-- A proper beginning of an accepted text does not stop the scan, and the rest is accepted
    from where it leads. -/
theorem accepts_append (h : M.Accepts s (as ++ bs)) (hbs : bs ≠ []) :
    ∃ t, M.passes s as = some t ∧ M.Accepts t bs := by
  obtain ⟨cs, b, u, heq, hpass, hbreak⟩ := h
  obtain ⟨ds, d, rfl⟩ : ∃ ds d, bs = ds ++ [d] :=
    ⟨_, _, (List.dropLast_append_getLast hbs).symm⟩
  rw [← List.append_assoc] at heq
  obtain ⟨rfl, hd⟩ := List.append_inj' heq rfl
  obtain ⟨t, ht, hu⟩ := passes_of_append hpass
  exact ⟨t, ht, ds, b, u, by rw [hd], hu, hbreak⟩

theorem length_pos_of_accepts (h : M.Accepts s as) : 0 < as.length := by
  obtain ⟨as, b, t, rfl, -, -⟩ := h
  simp

theorem stop_bounds (M : Scanner α) (s p : Nat) (as : List UInt8) :
    p ≤ (M.scan s p as).stop ∧ (M.scan s p as).stop ≤ p + as.length := by
  induction as generalizing s p with
  | nil => exact ⟨Nat.le_refl p, Nat.le_refl p⟩
  | cons b as ih =>
    rw [scan, List.length_cons]
    split
    · dsimp only
      omega
    · split
      · dsimp only
        omega
      · have := ih (M.next s b).1 (p + 1)
        dsimp only
        omega

/-- A scan that does not fail at its first byte goes past it. -/
theorem lt_stop (has : as ≠ []) (h : (M.scan s p as).state ≠ 0) : p < (M.scan s p as).stop := by
  cases as with
  | nil => exact absurd rfl has
  | cons b as =>
    rw [scan] at h ⊢
    split
    · exact Nat.lt_succ_self p
    · rename_i hbreak
      split
      · rename_i hzero
        rw [if_neg hbreak, if_pos hzero] at h
        exact absurd rfl h
      · exact (M.stop_bounds _ (p + 1) as).1

/-- A scan that has neither failed nor reached a final state has passed the whole text. -/
theorem passes_of_scan (hM : M.BreaksFinal) (hzero : (M.scan s p as).state ≠ 0)
    (hfinal : (M.scan s p as).state < M.firstFinal) :
    M.passes s as = some (M.scan s p as).state := by
  induction as generalizing s p with
  | nil => rfl
  | cons b as ih =>
    rw [scan] at hzero hfinal ⊢
    rw [passes]
    split at hfinal
    · rename_i hbreak
      exact absurd ((hM s b).mp hbreak) (Nat.not_le_of_lt hfinal)
    · rename_i hbreak
      rw [if_neg hbreak] at hzero
      split at hfinal
      · rename_i hnext
        rw [if_pos hnext] at hzero
        exact absurd rfl hzero
      · rename_i hnext
        rw [if_neg hnext] at hzero
        rw [if_neg (not_or.mpr ⟨hbreak, hnext⟩), if_neg hbreak, if_neg hnext]
        exact ih hzero hfinal

/-- A scan that ends in a final state has accepted what it has scanned. -/
theorem accepts_of_scan (hM : M.BreaksFinal) (hzero : M.firstFinal ≠ 0) (hs : s < M.firstFinal)
    (hfinal : M.firstFinal ≤ (M.scan s p as).state) : ∃ bs cs, as = bs ++ cs ∧ M.Accepts s bs := by
  induction as generalizing s p with
  | nil => exact absurd hs (Nat.not_lt_of_le hfinal)
  | cons b as ih =>
    rw [scan] at hfinal
    split at hfinal
    · rename_i hbreak
      exact ⟨[b], as, rfl, [], b, s, rfl, rfl, hbreak⟩
    · rename_i hbreak
      split at hfinal
      · exact absurd (Nat.le_zero.mp hfinal) hzero
      · rename_i hnext
        obtain ⟨bs, cs, rfl, ds, d, t, rfl, hpass, hbreak'⟩ :=
          ih (Nat.lt_of_not_le fun hle => hbreak ((hM s b).mpr hle)) hfinal
        refine ⟨b :: (ds ++ [d]), cs, rfl, b :: ds, d, t, rfl, ?_, hbreak'⟩
        rw [passes, if_neg (not_or.mpr ⟨hbreak, hnext⟩), hpass]

/-- A byte takes an edge of its state, or the default if none covers it. -/
theorem next_cases (s : Nat) (b : UInt8) :
    (∃ e ∈ (M.row s).edges, e.covers b = true ∧ M.next s b = (e.target, e.actions)) ∨
      (∀ e ∈ (M.row s).edges, e.covers b = false) ∧ M.next s b = (M.row s).default := by
  rw [next]
  split
  · rename_i e he
    exact Or.inl ⟨e, List.mem_of_find?_eq_some he,
      List.find?_some (p := fun e : Edge α => e.covers b) he, rfl⟩
  · rename_i hnone
    exact Or.inr ⟨fun e he => Bool.eq_false_iff.mpr (List.find?_eq_none.mp hnone e he), rfl⟩

/-- Two scanners that agree on the bytes of a text do the same on it. -/
theorem passes_congr {N : Scanner α} (hbreaks : M.breaks = N.breaks)
    (h : ∀ s, ∀ b ∈ as, M.next s b = N.next s b) : M.passes s as = N.passes s as := by
  induction as generalizing s with
  | nil => rfl
  | cons b as ih =>
    have hb := h s b List.mem_cons_self
    rw [passes, passes, breaksOn, breaksOn, hb, hbreaks,
      ih fun s c hc => h s c (List.mem_cons_of_mem b hc)]

theorem scan_congr {N : Scanner α} (hbreaks : M.breaks = N.breaks)
    (h : ∀ s, ∀ b ∈ as, M.next s b = N.next s b) : M.scan s p as = N.scan s p as := by
  induction as generalizing s p with
  | nil => rfl
  | cons b as ih =>
    have hb := h s b List.mem_cons_self
    rw [scan, scan, breaksOn, breaksOn, hb, hbreaks,
      ih fun s c hc => h s c (List.mem_cons_of_mem b hc)]

/-- The positions of a scan count from where it starts. -/
theorem scan_shift (M : Scanner α) (s p : Nat) (as : List UInt8) :
    (M.scan s p as).events = (M.scan s 0 as).events.map fun e => (p + e.1, e.2) := by
  induction as generalizing s p with
  | nil => rfl
  | cons b as ih =>
    rw [scan, scan]
    split
    · simp
    · split
      · simp
      · simp only [List.map_append]
        rw [ih _ (p + 1), ih _ (0 + 1)]
        simp [Nat.add_assoc, Function.comp_def]

theorem scan_state (M : Scanner α) (s p q : Nat) (as : List UInt8) :
    (M.scan s p as).state = (M.scan s q as).state := by
  induction as generalizing s p q with
  | nil => rfl
  | cons b as ih =>
    rw [scan, scan]
    split
    · rfl
    · split
      · rfl
      · exact ih _ _ _

/-- The actions of a scan are taken at the positions of its bytes. -/
theorem mem_events {e : Nat × α} (he : e ∈ (M.scan s p as).events) :
    p ≤ e.1 ∧ e.1 < p + as.length := by
  induction as generalizing s p with
  | nil => cases he
  | cons b as ih =>
    have hnow : e ∈ ((M.next s b).2.map fun a => (p, a)) →
        p ≤ e.1 ∧ e.1 < p + (b :: as).length := by
      intro hmem
      obtain ⟨a, -, rfl⟩ := List.mem_map.mp hmem
      simp
    rw [scan] at he
    split at he
    · exact hnow he
    · split at he
      · exact hnow he
      · rcases List.mem_append.mp he with he | he
        · exact hnow he
        · have := ih he
          rw [List.length_cons]
          omega

/-- A text that does not stop the scan has no action that breaks. -/
theorem not_breaks_of_passes (h : M.passes s as = some t) {e : Nat × α}
    (he : e ∈ (M.scan s p as).events) : M.breaks e.2 = false := by
  induction as generalizing s p with
  | nil => cases he
  | cons b as ih =>
    rw [passes] at h
    split at h
    · cases h
    · rename_i hb
      rw [not_or] at hb
      rw [scan, if_neg hb.1, if_neg hb.2] at he
      rcases List.mem_append.mp he with he | he
      · obtain ⟨a, ha, rfl⟩ := List.mem_map.mp he
        by_contra hbreak
        exact hb.1 (List.any_eq_true.mpr ⟨a, ha, by simpa using hbreak⟩)
      · exact ih h he

/-- A relation between the state of the scanner, the position and what the actions run on, which
    every byte preserves, holds of what they leave. -/
theorem foldlM_scan {σ ε : Type} (M : Scanner α) (step : σ → Nat × α → Except ε σ)
    (text : List UInt8) (I : Nat → Nat → σ → Prop) {x y : σ}
    (hbyte : ∀ s p b x y, text[p]? = some b → I s p x →
      ((M.next s b).2.map fun a => (p, a)).foldlM step x = .ok y → I (M.next s b).1 (p + 1) y)
    (hx : I s p x) (h : (M.scan s p (text.drop p)).events.foldlM step x = .ok y) :
    ∃ t q, I t q y := by
  -- The induction is on what is still to be scanned.
  generalize has : text.drop p = as at h
  induction as generalizing s p x with
  | nil =>
    cases h
    exact ⟨s, p, hx⟩
  | cons b as ih =>
    have hb : text[p]? = some b := by
      rw [← List.head?_drop, has]
      rfl
    rw [scan] at h
    split at h
    · exact ⟨_, _, hbyte s p b x y hb hx h⟩
    · split at h
      · exact ⟨_, _, hbyte s p b x y hb hx h⟩
      · rw [List.foldlM_append] at h
        cases hnow : ((M.next s b).2.map fun a => (p, a)).foldlM step x with
        | error f =>
          rw [hnow] at h
          cases h
        | ok z =>
          rw [hnow] at h
          refine ih (hbyte s p b x z hb hx hnow) ?_ h
          rw [← List.drop_drop, has]
          rfl

/-- If a `c` leads to `later` states, and these lead only to such states and give no text, a scan
    keeps what every action keeps that gives no text behind a `c`. -/
theorem foldlM_scan_first {σ ε : Type} (M : Scanner α) (step : σ → Nat × α → Except ε σ)
    {text : List UInt8} {c : UInt8} {later : Nat → Bool} {gives : α → Bool} {P : σ → Prop} {x y : σ}
    (hlater : ∀ s b, later s = true →
      later (M.next s b).1 = true ∧ (M.next s b).2.any gives = false)
    (hbyte : ∀ s, later (M.next s c).1 = true)
    (hstep : ∀ p a x y, p < text.length → (gives a = true → ∀ i < p, text[i]? ≠ some c) → P x →
      step x (p, a) = .ok y → P y)
    (hx : P x) (h : (M.scan s 0 text).events.foldlM step x = .ok y) : P y := by
  have hevents : ∀ (p : Nat) (as : List α) (x y : σ), p < text.length →
      (as.any gives = true → ∀ i < p, text[i]? ≠ some c) → P x →
      (as.map fun a => (p, a)).foldlM step x = .ok y → P y := by
    intro p as
    induction as with
    | nil =>
      intro x y _ _ hx h
      cases h
      exact hx
    | cons a as ih =>
      intro x y hp hfirst hx h
      rw [List.map_cons, List.foldlM_cons] at h
      cases hz : step x (p, a) with
      | error e =>
        rw [hz] at h
        cases h
      | ok z =>
        rw [hz] at h
        refine ih z y hp (fun has => hfirst ?_) (hstep p a x z hp (fun ha => hfirst ?_) hx hz) h
        · simp [has]
        · simp [ha]
  have hscan := foldlM_scan (x := x) M step text
    (fun s p x => P x ∧ (later s = false → ∀ i < p, text[i]? ≠ some c)) ?_
    ⟨hx, fun _ i hi => absurd hi (Nat.not_lt_zero i)⟩ h
  · obtain ⟨t, q, hy, -⟩ := hscan
    exact hy
  · rintro s p b x y hb ⟨hx, hfirst⟩ hy
    have hp : p < text.length := (List.getElem?_eq_some_iff.mp hb).elim fun hp _ => hp
    -- A state that is not behind a `c` comes from such a state, and its byte is not `c`.
    refine ⟨hevents p _ x y hp (fun hgives => hfirst ?_) hx hy, fun hnext i hi => ?_⟩
    · rw [← Bool.not_eq_true]
      intro hs
      rw [(hlater s b hs).2] at hgives
      cases hgives
    · have hs : later s = false := by
        rw [← Bool.not_eq_true]
        intro hs
        rw [(hlater s b hs).1] at hnext
        cases hnext
      rcases Nat.lt_succ_iff_lt_or_eq.mp hi with hi | rfl
      · exact hfirst hs i hi
      · rw [hb]
        rintro ⟨⟩
        rw [hbyte s] at hnext
        cases hnext

/-- A text that does not stop the scan, with what it does: `es` gives the events where the text
    begins at a position. -/
structure Scans (M : Scanner α) (s : Nat) (as : List UInt8) (t : Nat)
    (es : Nat → List (Nat × α)) : Prop where
  passes : M.passes s as = some t
  events : ∀ p, (M.scan s p as).events = es p

theorem Scans.trans {es fs : Nat → List (Nat × α)} {u : Nat} (h : M.Scans s as t es)
    (h' : M.Scans t bs u fs) :
    M.Scans s (as ++ bs) u fun p => es p ++ fs (p + as.length) where
  passes := (passes_append h.passes bs).trans h'.passes
  events p := by rw [scan_append h.passes, h.events, h'.events]

theorem Scans.byte {b : UInt8} {acts : List α} (hnext : M.next s b = (t, acts)) (hne : t ≠ 0)
    (hbreak : acts.any M.breaks = false) : M.Scans s [b] t fun p => acts.map fun a => (p, a) := by
  have hb : M.breaksOn s b = false := by rw [breaksOn, hnext, hbreak]
  refine ⟨?_, fun p => ?_⟩
  · rw [Scanner.passes, if_neg (by simp [hb, hnext, hne]), hnext]
    rfl
  · simp [scan, hb, hnext, hne]

end Scanner

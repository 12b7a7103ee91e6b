import Mathlib.Computability.Language
import Mathlib.Data.Nat.Bitwise
import CppServerFramework.Misc.Scanner

/-!
# Regular expressions and scanners

Regular expressions over bytes, and a check that a scanner reads every text of one: the pairs of
a state and of an expression for what may still come are finitely many, and are all visited.  A
set of bytes is also a number, whose bits are the bytes.
-/

open Computability

/-- Regular expressions whose letters are the bytes of some ranges. -/
inductive Regex where
  | eps
  | set (ranges : List (Nat × Nat))
  | alt (r s : Regex)
  | seq (r s : Regex)
  | star (r : Regex)
  deriving DecidableEq

def inRanges (ranges : List (Nat × Nat)) (b : UInt8) : Bool :=
  ranges.any fun r => r.1 ≤ b.toNat && b.toNat ≤ r.2

namespace Regex

def language : Regex → Language UInt8
  | eps => 1
  | set ranges => {w | ∃ b, inRanges ranges b = true ∧ w = [b]}
  | alt r s => r.language + s.language
  | seq r s => r.language * s.language
  | star r => r.language∗

/-! ## Abbreviations -/

def chr (b : Nat) : Regex := set [(b, b)]

def alts : List Regex → Regex
  | [] => set []
  | [r] => r
  | r :: rs => alt r (alts rs)

def seqs : List Regex → Regex
  | [] => eps
  | [r] => r
  | r :: rs => seq r (seqs rs)

def opt (r : Regex) : Regex := alt eps r

def plus (r : Regex) : Regex := seq r (star r)

/-- `r{n,}` -/
def atLeast : Nat → Regex → Regex
  | 0, r => star r
  | n + 1, r => seq r (atLeast n r)

/-- `r{0,n}` -/
def atMost : Nat → Regex → Regex
  | 0, _ => eps
  | n + 1, r => opt (seq r (atMost n r))

/-! ## Derivatives -/

/-- Ranges that hold every byte of every text. -/
def letters : Regex → List (Nat × Nat)
  | eps => []
  | set ranges => ranges
  | alt r s => r.letters ++ s.letters
  | seq r s => r.letters ++ s.letters
  | star r => r.letters

def nullable : Regex → Bool
  | eps => true
  | set _ => false
  | alt r s => r.nullable || s.nullable
  | seq r s => r.nullable && s.nullable
  | star _ => true

/-- A sequence, with sequences in it nested to the right. -/
def andThen : Regex → Regex → Regex
  | eps, s => s
  | seq q r, s => seq q (r.andThen s)
  | r, s => seq r s

/-- The first bytes of the texts, and what may come behind them. -/
def factors : Regex → List (List (Nat × Nat) × Regex)
  | eps => []
  | set ranges => [(ranges, eps)]
  | alt r s => r.factors ++ s.factors
  | seq r s =>
    (r.factors.map fun f => (f.1, f.2.andThen s)) ++ if r.nullable then s.factors else []
  | star r => r.factors.map fun f => (f.1, f.2.andThen (star r))

variable {r s : Regex} {b : UInt8} {w : List UInt8}

theorem nil_mem_language : [] ∈ r.language ↔ r.nullable = true := by
  induction r with
  | eps => simp [language, nullable]
  | set ranges =>
    refine iff_of_false ?_ (by simp [nullable])
    rintro ⟨b, -, h⟩
    cases h
  | alt r s ihr ihs => rw [language, Language.mem_add, nullable, Bool.or_eq_true, ihr, ihs]
  | seq r s ihr ihs => simp [language, nullable, Language.mem_mul, ihr, ihs]
  | star r => simp [language, nullable, Language.nil_mem_kstar]

theorem inRanges_append {l m : List (Nat × Nat)} :
    inRanges (l ++ m) b = true ↔ inRanges l b = true ∨ inRanges m b = true := by
  rw [inRanges, List.any_append, Bool.or_eq_true]
  rfl

theorem inRanges_letters (h : w ∈ r.language) (hb : b ∈ w) : inRanges r.letters b = true := by
  induction r generalizing w with
  | eps =>
    rw [language, Language.mem_one] at h
    exact absurd hb (h ▸ List.not_mem_nil)
  | set ranges =>
    obtain ⟨c, hc, rfl⟩ := h
    exact List.mem_singleton.mp hb ▸ hc
  | alt r s ihr ihs =>
    rw [letters, inRanges_append]
    exact h.imp (ihr · hb) (ihs · hb)
  | seq r s ihr ihs =>
    obtain ⟨u, hu, v, hv, rfl⟩ := Language.mem_mul.mp h
    rw [letters, inRanges_append]
    exact (List.mem_append.mp hb).imp (ihr hu) (ihs hv)
  | star r ih =>
    obtain ⟨l, rfl, hl⟩ := Language.mem_kstar.mp h
    obtain ⟨u, hu, hb⟩ := List.mem_flatten.mp hb
    exact ih (hl u hu) hb

theorem language_andThen (r s : Regex) : (r.andThen s).language = r.language * s.language := by
  induction r with
  | eps => simp [andThen, language]
  | seq q r _ ih => rw [andThen, language, language, ih, mul_assoc]
  | set ranges => rfl
  | alt q r => rfl
  | star r => rfl

theorem cons_mem_language :
    b :: w ∈ r.language ↔ ∃ f ∈ r.factors, inRanges f.1 b = true ∧ w ∈ f.2.language := by
  induction r generalizing w with
  | eps => simp [language, factors]
  | set ranges =>
    constructor
    · rintro ⟨c, hc, heq⟩
      cases heq
      exact ⟨_, List.mem_singleton_self _, hc, rfl⟩
    · rintro ⟨f, hf, hb, hw⟩
      cases List.mem_singleton.mp hf
      exact ⟨b, hb, congrArg (b :: ·) hw⟩
  | alt r s ihr ihs =>
    rw [language, Language.mem_add, ihr, ihs, factors]
    simp only [List.mem_append, or_and_right, exists_or]
  | seq r s ihr ihs =>
    rw [language, Language.mem_mul, factors]
    constructor
    · rintro ⟨u, hu, v, hv, huv⟩
      cases u with
      | nil =>
        obtain rfl : v = b :: w := huv
        obtain ⟨f, hf, hb, hw⟩ := ihs.mp hv
        refine ⟨f, List.mem_append_right _ ?_, hb, hw⟩
        rwa [if_pos (nil_mem_language.mp hu)]
      | cons c u =>
        cases huv
        obtain ⟨f, hf, hb, hw⟩ := ihr.mp hu
        refine ⟨_, List.mem_append_left _ (List.mem_map_of_mem hf), hb, ?_⟩
        rw [language_andThen]
        exact Language.append_mem_mul hw hv
    · rintro ⟨f, hf, hb, hw⟩
      rcases List.mem_append.mp hf with hf | hf
      · obtain ⟨g, hg, rfl⟩ := List.mem_map.mp hf
        rw [language_andThen] at hw
        obtain ⟨u, hu, v, hv, rfl⟩ := Language.mem_mul.mp hw
        exact ⟨b :: u, ihr.mpr ⟨g, hg, hb, hu⟩, v, hv, rfl⟩
      · split at hf
        · rename_i hnull
          exact ⟨[], nil_mem_language.mpr hnull, b :: w, ihs.mpr ⟨f, hf, hb, hw⟩, rfl⟩
        · cases hf
  | star r ih =>
    rw [language, Language.mem_kstar_iff_exists_nonempty, factors]
    constructor
    · rintro ⟨ws, hflat, hws⟩
      cases ws with
      | nil => cases hflat
      | cons u ws =>
        obtain ⟨hu, hne⟩ := hws u List.mem_cons_self
        cases u with
        | nil => exact absurd rfl hne
        | cons c u =>
          cases hflat
          obtain ⟨f, hf, hb, hw⟩ := ih.mp hu
          refine ⟨_, List.mem_map_of_mem hf, hb, ?_⟩
          rw [language_andThen]
          refine Language.append_mem_mul hw (Language.mem_kstar_iff_exists_nonempty.mpr ?_)
          exact ⟨ws, rfl, fun v hv => hws v (List.mem_cons_of_mem _ hv)⟩
    · rintro ⟨f, hf, hb, hw⟩
      obtain ⟨g, hg, rfl⟩ := List.mem_map.mp hf
      rw [language_andThen] at hw
      obtain ⟨u, hu, v, hv, rfl⟩ := Language.mem_mul.mp hw
      obtain ⟨ws, rfl, hws⟩ := Language.mem_kstar_iff_exists_nonempty.mp hv
      refine ⟨(b :: u) :: ws, rfl, fun x hx => ?_⟩
      rcases List.mem_cons.mp hx with rfl | hx
      · exact ⟨ih.mpr ⟨g, hg, hb, hu⟩, List.cons_ne_nil b u⟩
      · exact hws x hx

/-- Any bytes of a set. -/
theorem mem_star_set {ranges : List (Nat × Nat)} (h : ∀ b ∈ w, inRanges ranges b = true) :
    w ∈ (star (set ranges)).language := by
  induction w with
  | nil => exact nil_mem_language.mpr rfl
  | cons b w ih =>
    rw [List.forall_mem_cons] at h
    exact cons_mem_language.mpr ⟨_, List.mem_singleton_self _, h.1, ih h.2⟩

/-- Reads a text byte by byte, by what may still come. -/
def accepts : Regex → List UInt8 → Bool
  | r, [] => r.nullable
  | r, b :: w => r.factors.any fun f => inRanges f.1 b && accepts f.2 w

theorem accepts_iff : r.accepts w = true ↔ w ∈ r.language := by
  induction w generalizing r with
  | nil => exact nil_mem_language.symm
  | cons b w ih => simp [accepts, cons_mem_language, ih]

instance (r : Regex) (w : List UInt8) : Decidable (w ∈ r.language) :=
  decidable_of_iff _ accepts_iff

end Regex

/-! ## Sets of bytes as numbers -/

/-- The bytes from `lo` to `hi`. -/
def rangeMask (lo hi : Nat) : Nat := (2 ^ (hi + 1 - lo) - 1) <<< lo

def mask : List (Nat × Nat) → Nat
  | [] => 0
  | r :: rs => rangeMask r.1 r.2 ||| mask rs

theorem testBit_mask (ranges : List (Nat × Nat)) (b : UInt8) :
    (mask ranges).testBit b.toNat = inRanges ranges b := by
  induction ranges with
  | nil => simp [mask, inRanges]
  | cons r rs ih =>
    rw [mask, Nat.testBit_or, ih, inRanges, inRanges, List.any_cons, rangeMask,
      Nat.testBit_shiftLeft, Nat.testBit_two_pow_sub_one]
    congr 1
    by_cases h : r.1 ≤ b.toNat <;> simp [h]
    omega

namespace Scanner

variable {α : Type} {M : Scanner α}

/-- The transitions on the bytes of a set: an edge takes those that no edge before it took. -/
def targets : List (Edge α) → Nat × List α → Nat → List (Nat × List α)
  | [], default, bytes => if bytes = 0 then [] else [default]
  | e :: edges, default, bytes =>
    let taken := bytes &&& mask e.ranges
    if taken = 0 then targets edges default bytes
    else (e.target, e.actions) :: targets edges default (bytes ^^^ taken)

theorem mem_targets {edges : List (Edge α)} {default : Nat × List α} {bytes : Nat} {b : UInt8}
    (h : bytes.testBit b.toNat = true) :
    (match edges.find? fun e => e.covers b with
      | some e => (e.target, e.actions)
      | none => default) ∈ targets edges default bytes := by
  induction edges generalizing bytes with
  | nil =>
    have hne : bytes ≠ 0 := by
      rintro rfl
      simp at h
    simp [targets, hne]
  | cons e edges ih =>
    have hcov : (mask e.ranges).testBit b.toNat = e.covers b := testBit_mask e.ranges b
    rw [targets, List.find?_cons]
    cases hc : e.covers b with
    | true =>
      have htaken : (bytes &&& mask e.ranges) ≠ 0 := by
        intro hzero
        have := congrArg (fun n => n.testBit b.toNat) hzero
        simp [Nat.testBit_and, h, hcov, hc] at this
      simp [htaken]
    | false =>
      simp only
      split
      · exact ih h
      · refine List.mem_cons_of_mem _ (ih ?_)
        rw [Nat.testBit_xor, Nat.testBit_and, hcov, hc, h]
        rfl

theorem next_mem_targets {s : Nat} {b : UInt8} {ranges : List (Nat × Nat)}
    (h : inRanges ranges b = true) :
    M.next s b ∈ targets (M.row s).edges (M.row s).default (mask ranges) :=
  mem_targets ((testBit_mask ranges b).trans h)

end Scanner

/-! ## The check -/

/-- Pairs of a state and an expression, by their states. -/
abbrev RegexTable := List (Nat × List Regex)

namespace RegexTable

def get : RegexTable → Nat → List Regex
  | [], _ => []
  | (t, rs) :: table, s => if t = s then rs else get table s

def add : RegexTable → Nat → Regex → RegexTable
  | [], s, r => [(s, [r])]
  | (t, rs) :: table, s, r => if t = s then (t, r :: rs) :: table else (t, rs) :: add table s r

theorem mem_get_add {table : RegexTable} {s t : Nat} {r q : Regex} :
    q ∈ (table.add s r).get t ↔ (t = s ∧ q = r) ∨ q ∈ table.get t := by
  induction table with
  | nil =>
    simp only [add, get]
    by_cases h : s = t <;> simp [h, eq_comm]
  | cons e table ih =>
    simp only [add, get]
    by_cases hs : e.1 = s
    · by_cases ht : e.1 = t
      · subst hs ht
        simp [get]
      · subst hs
        simp [get, ht, Ne.symm ht]
    · by_cases ht : e.1 = t
      · subst ht
        simp [get, hs]
      · simp [get, hs, ht, ih]

/-- Visits the pairs that `step` leads to; `none` where it fails. -/
def explore (step : Nat → Regex → Option (List (Nat × Regex))) :
    Nat → List (Nat × Regex) → RegexTable → Option RegexTable
  | _, [], table => some table
  | 0, _ :: _, _ => none
  | fuel + 1, x :: todo, table =>
    if x.2 ∈ table.get x.1 then explore step fuel todo table
    else (step x.1 x.2).bind fun new => explore step fuel (new ++ todo) (table.add x.1 x.2)

/-- What a visit of all pairs has found: they are closed under `step`, but for those that are
    still to be visited. -/
def Closed (step : Nat → Regex → Option (List (Nat × Regex))) (table : RegexTable)
    (todo : List (Nat × Regex)) : Prop :=
  ∀ s, ∀ r ∈ table.get s, ∃ new, step s r = some new ∧
    ∀ x ∈ new, x.2 ∈ table.get x.1 ∨ x ∈ todo

theorem explore_closed {step : Nat → Regex → Option (List (Nat × Regex))} {fuel : Nat}
    {todo : List (Nat × Regex)} {table table' : RegexTable}
    (h : explore step fuel todo table = some table') (hclosed : Closed step table todo) :
    Closed step table' [] ∧ (∀ x ∈ todo, x.2 ∈ table'.get x.1) ∧
      ∀ s, ∀ r ∈ table.get s, r ∈ table'.get s := by
  induction fuel generalizing todo table with
  | zero =>
    cases todo with
    | nil =>
      cases h
      exact ⟨hclosed, by simp, fun _ _ hr => hr⟩
    | cons x todo => cases h
  | succ fuel ih =>
    cases todo with
    | nil =>
      cases h
      exact ⟨hclosed, by simp, fun _ _ hr => hr⟩
    | cons x todo =>
      rw [explore] at h
      split at h
      · rename_i hseen
        obtain ⟨hc, htodo, hsub⟩ := ih h fun s r hr => by
          obtain ⟨new, hstep, hnew⟩ := hclosed s r hr
          refine ⟨new, hstep, fun y hy => ?_⟩
          rcases hnew y hy with hin | hin
          · exact Or.inl hin
          · rcases List.mem_cons.mp hin with rfl | hin
            · exact Or.inl hseen
            · exact Or.inr hin
        exact ⟨hc, List.forall_mem_cons.mpr ⟨hsub _ _ hseen, htodo⟩, hsub⟩
      · obtain ⟨new, hnew, h⟩ := Option.bind_eq_some_iff.mp h
        obtain ⟨hc, htodo, hsub⟩ := ih h fun s r hr => by
          rcases mem_get_add.mp hr with ⟨rfl, rfl⟩ | hr
          · exact ⟨new, hnew, fun y hy => Or.inr (List.mem_append_left _ hy)⟩
          · obtain ⟨old, hstep, hold⟩ := hclosed s r hr
            refine ⟨old, hstep, fun y hy => ?_⟩
            rcases hold y hy with hin | hin
            · exact Or.inl (mem_get_add.mpr (Or.inr hin))
            · rcases List.mem_cons.mp hin with rfl | hin
              · exact Or.inl (mem_get_add.mpr (Or.inl ⟨rfl, rfl⟩))
              · exact Or.inr (List.mem_append_right _ hin)
        refine ⟨hc, ?_, fun s r hr => hsub s r (mem_get_add.mpr (Or.inr hr))⟩
        rw [List.forall_mem_cons]
        exact ⟨hsub _ _ (mem_get_add.mpr (Or.inl ⟨rfl, rfl⟩)),
          fun y hy => htodo y (List.mem_append_right _ hy)⟩

end RegexTable

namespace Scanner

variable {α : Type} [DecidableEq α] {M : Scanner α} {acts : List α} {exits : Nat → Bool}
  {s t : Nat} {r : Regex} {b : UInt8} {w : List UInt8}

/-- Where the first bytes lead to from a state, if each takes the actions `acts` there. -/
def follow (edges : List (Edge α)) (default : Nat × List α) (acts : List α) :
    List (List (Nat × Nat) × Regex) → Option (List (Nat × Regex))
  | [] => some []
  | f :: factors =>
    let next := targets edges default (mask f.1)
    if next.all fun x => x.1 ≠ 0 ∧ x.2 = acts then
      (follow edges default acts factors).map fun new => next.map (fun x => (x.1, f.2)) ++ new
    else none

/-- One step of the check; a text may end only where the scanner may leave it. -/
def stepsTo (M : Scanner α) (acts : List α) (exits : Nat → Bool) (s : Nat) (r : Regex) :
    Option (List (Nat × Regex)) :=
  if r.nullable && !exits s then none
  else match M.row s with
    | ⟨edges, default⟩ => follow edges default acts r.factors

/-- From the state the scanner reads every text of the expression: at the first byte it takes the
    actions `acts`, and at the other bytes none. -/
def reads (M : Scanner α) (fuel : Nat) (acts : List α) (exits : Nat → Bool) (s : Nat)
    (r : Regex) : Bool :=
  match M.stepsTo acts (fun _ => true) s r with
  | some new => (RegexTable.explore (M.stepsTo [] exits) fuel new []).isSome
  | none => false

theorem follow_spec {factors : List (List (Nat × Nat) × Regex)} {new : List (Nat × Regex)}
    (h : follow (M.row s).edges (M.row s).default acts factors = some new)
    {f : List (Nat × Nat) × Regex} (hf : f ∈ factors)
    (hb : inRanges f.1 b = true) :
    (M.next s b).1 ≠ 0 ∧ (M.next s b).2 = acts ∧ ((M.next s b).1, f.2) ∈ new := by
  induction factors generalizing new with
  | nil => cases hf
  | cons g factors ih =>
    simp only [follow] at h
    split at h
    · rename_i hall
      obtain ⟨rest, hrest, rfl⟩ := Option.map_eq_some_iff.mp h
      rcases List.mem_cons.mp hf with rfl | hf
      · have hmem := next_mem_targets (M := M) (s := s) hb
        have hok := List.all_eq_true.mp hall _ hmem
        simp only [decide_eq_true_eq] at hok
        exact ⟨hok.1, hok.2, List.mem_append_left _ (List.mem_map.mpr ⟨_, hmem, rfl⟩)⟩
      · obtain ⟨hne, hacts, hin⟩ := ih hrest hf
        exact ⟨hne, hacts, List.mem_append_right _ hin⟩
    · cases h

/-- The step of a text: it ends where the scanner may leave it, or its first byte leads on. -/
theorem stepsTo_spec {new : List (Nat × Regex)} (h : M.stepsTo acts exits s r = some new)
    (hw : w ∈ r.language) :
    (w = [] ∧ exits s = true) ∨ ∃ b v q, w = b :: v ∧ v ∈ q.language ∧ (M.next s b).1 ≠ 0 ∧
      (M.next s b).2 = acts ∧ ((M.next s b).1, q) ∈ new := by
  rw [stepsTo] at h
  split at h
  · cases h
  · rename_i hend
    cases w with
    | nil =>
      have hnull := Regex.nil_mem_language.mp hw
      exact Or.inl ⟨rfl, by simpa [hnull] using hend⟩
    | cons b v =>
      obtain ⟨f, hf, hb, hv⟩ := Regex.cons_mem_language.mp hw
      obtain ⟨hne, hacts, hin⟩ := follow_spec h hf hb
      exact Or.inr ⟨b, v, f.2, rfl, hv, hne, hacts, hin⟩

/-- A text of a pair that has been visited is read without an action. -/
theorem quiet_of_closed {table : RegexTable} (h : table.Closed (M.stepsTo [] exits) [])
    (hr : r ∈ table.get s) (hw : w ∈ r.language) :
    ∃ t, M.passes s w = some t ∧ (∀ p, (M.scan s p w).events = []) ∧ exits t = true := by
  induction w generalizing s r with
  | nil =>
    obtain ⟨new, hstep, -⟩ := h s r hr
    rcases stepsTo_spec hstep hw with ⟨-, hexit⟩ | ⟨b, v, q, hcons, -⟩
    · exact ⟨s, rfl, fun _ => rfl, hexit⟩
    · cases hcons
  | cons b v ih =>
    obtain ⟨new, hstep, hnew⟩ := h s r hr
    rcases stepsTo_spec hstep hw with ⟨hnil, -⟩ | ⟨b, v, q, hcons, hv, hne, hacts, hin⟩
    · cases hnil
    · cases hcons
      have hq := (hnew _ hin).resolve_right (List.not_mem_nil)
      obtain ⟨t, hpass, hevents, hexit⟩ := ih hq hv
      have hbreak : M.breaksOn s b = false := by rw [breaksOn, hacts, List.any_nil]
      refine ⟨t, ?_, fun p => ?_, hexit⟩
      · rw [passes, if_neg (by simp [hbreak, hne]), hpass]
      · simp [scan, hbreak, hne, hacts, hevents]

theorem reads_spec {fuel : Nat} (h : M.reads fuel acts exits s r = true)
    (hacts : acts.any M.breaks = false) (hw : w ∈ r.language) (hne : w ≠ []) :
    ∃ t, M.passes s w = some t ∧
      (∀ p, (M.scan s p w).events = acts.map fun a => (p, a)) ∧ exits t = true := by
  rw [reads] at h
  split at h
  · rename_i new hstep
    obtain ⟨table, hexplore⟩ := Option.isSome_iff_exists.mp h
    obtain ⟨hclosed, htodo, -⟩ := RegexTable.explore_closed hexplore fun s r hr => by cases hr
    rcases stepsTo_spec hstep hw with ⟨hnil, -⟩ | ⟨b, v, q, rfl, hv, hzero, hnext, hin⟩
    · exact absurd hnil hne
    · obtain ⟨t, hpass, hevents, hexit⟩ := quiet_of_closed hclosed (htodo _ hin) hv
      have hbreak : M.breaksOn s b = false := by rw [breaksOn, hnext, hacts]
      refine ⟨t, ?_, fun p => ?_, hexit⟩
      · rw [passes, if_neg (by simp [hbreak, hzero]), hpass]
      · simp [scan, hbreak, hzero, hnext, hevents]
  · cases h

end Scanner

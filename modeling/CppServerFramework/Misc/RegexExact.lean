import CppServerFramework.Misc.Regex

/-!
# Scanners that read exactly a regular expression

A check that a scanner reads the texts of an expression and no others: the pairs of a state and
of an expression for all that may still come are finitely many, and are all visited.  At each pair
the bytes fall into classes that neither the table nor the expression tells apart.
-/

open Computability

namespace Regex

variable {r : Regex} {b : UInt8} {w : List UInt8}

theorem mem_language_alts {rs : List Regex} :
    w ∈ (alts rs).language ↔ ∃ r ∈ rs, w ∈ r.language := by
  induction rs with
  | nil =>
    refine iff_of_false ?_ (by simp)
    rintro ⟨b, hb, -⟩
    cases hb
  | cons r rs ih =>
    cases rs with
    | nil => simp [alts]
    | cons q rs =>
      rw [alts.eq_3 r (q :: rs) (by simp), language, Language.mem_add, ih]
      simp

/-- A repetition comes apart at a byte that stands in it only by itself. -/
theorem mem_star_of_append {v : List UInt8} (hb : ∀ x ∈ r.language, b ∈ x → x = [b])
    (h : w ++ b :: v ∈ (star r).language) :
    w ∈ (star r).language ∧ v ∈ (star r).language := by
  obtain ⟨l, heq, hl⟩ := Language.mem_kstar.mp h
  clear h
  induction l generalizing w with
  | nil => simp at heq
  | cons x l ih =>
    rw [List.forall_mem_cons] at hl
    rw [List.flatten_cons, List.append_eq_append_iff] at heq
    rcases heq with ⟨c, rfl, hc⟩ | ⟨c, rfl, hc⟩
    · cases c with
      | nil =>
        rw [List.append_nil] at hl
        exact ⟨Language.mem_kstar.mpr ⟨[w], by simp, by simpa using hl.1⟩,
          (ih (show [] ++ b :: v = l.flatten from hc) hl.2).2⟩
      | cons d c =>
        obtain ⟨rfl, rfl⟩ := List.cons.inj hc
        have hx := hb _ hl.1 (by simp)
        have hlength := congrArg List.length hx
        simp only [List.length_append, List.length_cons, List.length_nil] at hlength
        obtain rfl := List.length_eq_zero_iff.mp (show w.length = 0 by omega)
        obtain rfl := List.length_eq_zero_iff.mp (show c.length = 0 by omega)
        exact ⟨Language.nil_mem_kstar _, Language.mem_kstar.mpr ⟨l, rfl, hl.2⟩⟩
    · obtain ⟨hc, hv⟩ := ih hc.symm hl.2
      obtain ⟨m, rfl, hm⟩ := Language.mem_kstar.mp hc
      exact ⟨Language.mem_kstar.mpr ⟨x :: m, rfl, List.forall_mem_cons.mpr ⟨hl.1, hm⟩⟩, hv⟩

/-- What may come behind the bytes of the class `c`, each once; `none` if a letter is some of
    them only. -/
def behind (c : Nat) : List (List (Nat × Nat) × Regex) → Option (List Regex)
  | [] => some []
  | f :: factors =>
    let common := mask f.1 &&& c
    if common = 0 then behind c factors
    else if common = c then (behind c factors).map (List.insert f.2)
    else none

theorem mem_behind {c : Nat} (hb : c.testBit b.toNat = true)
    {factors : List (List (Nat × Nat) × Regex)} {rs : List Regex} (h : behind c factors = some rs)
    (q : Regex) : q ∈ rs ↔ ∃ f ∈ factors, inRanges f.1 b = true ∧ f.2 = q := by
  induction factors generalizing rs with
  | nil =>
    cases h
    simp
  | cons f factors ih =>
    have hcommon : (mask f.1 &&& c).testBit b.toNat = inRanges f.1 b := by
      rw [Nat.testBit_and, testBit_mask, hb, Bool.and_true]
    simp only [behind] at h
    split at h
    · rename_i hzero
      rw [hzero, Nat.zero_testBit] at hcommon
      rw [ih h]
      simp [← hcommon]
    · split at h
      · rename_i hall
        rw [hall, hb] at hcommon
        obtain ⟨rest, hrest, rfl⟩ := Option.map_eq_some_iff.mp h
        rw [List.mem_insert_iff, ih hrest, List.exists_mem_cons_iff]
        simp only [← hcommon, true_and, eq_comm (a := q)]
      · cases h

/-- The texts that begin with a byte of the class. -/
theorem cons_mem_language_behind {c : Nat} (hb : c.testBit b.toNat = true) {rs : List Regex}
    (h : behind c r.factors = some rs) : b :: w ∈ r.language ↔ w ∈ (alts rs).language := by
  rw [cons_mem_language, mem_language_alts]
  constructor
  · rintro ⟨f, hf, hin, hw⟩
    exact ⟨f.2, (mem_behind hb h _).mpr ⟨f, hf, hin, rfl⟩, hw⟩
  · rintro ⟨q, hq, hw⟩
    obtain ⟨f, hf, hin, rfl⟩ := (mem_behind hb h _).mp hq
    exact ⟨f, hf, hin, hw⟩

end Regex

namespace Scanner

variable {α : Type} {M : Scanner α} {s t : Nat} {r : Regex} {b : UInt8} {w : List UInt8}

/-- The parts of a set of bytes that some other sets do not divide. -/
def splitBy (c : Nat) : List Nat → List Nat
  | [] => if c = 0 then [] else [c]
  | m :: ms => if c = 0 then [] else splitBy (c &&& m) ms ++ splitBy (c ^^^ (c &&& m)) ms

theorem mem_splitBy {c : Nat} (hb : c.testBit b.toNat = true) (ms : List Nat) :
    ∃ d ∈ splitBy c ms, d.testBit b.toNat = true := by
  have hne : c ≠ 0 := by
    rintro rfl
    simp at hb
  induction ms generalizing c with
  | nil => exact ⟨c, by simp [splitBy, hne], hb⟩
  | cons m ms ih =>
    simp only [splitBy, if_neg hne]
    cases hm : m.testBit b.toNat with
    | true =>
      have hin : (c &&& m).testBit b.toNat = true := by rw [Nat.testBit_and, hb, hm]; rfl
      obtain ⟨d, hd, hbit⟩ := ih hin (by rintro hzero; simp [hzero] at hin)
      exact ⟨d, List.mem_append_left _ hd, hbit⟩
    | false =>
      have hin : (c ^^^ (c &&& m)).testBit b.toNat = true := by
        rw [Nat.testBit_xor, Nat.testBit_and, hb, hm]
        rfl
      obtain ⟨d, hd, hbit⟩ := ih hin (by rintro hzero; simp [hzero] at hin)
      exact ⟨d, List.mem_append_right _ hd, hbit⟩

/-- Where a transition on the bytes of some classes leads to: it fails only where no text goes on,
    and takes allowed actions where one does. -/
def movesOn (allowed : List α → Bool) (factors : List (List (Nat × Nat) × Regex))
    (x : Nat × List α) : List Nat → Option (List (Nat × Regex))
  | [] => some []
  | c :: classes =>
    match Regex.behind c factors with
    | some rs =>
      if rs.isEmpty || (x.1 ≠ 0 && allowed x.2) then
        (movesOn allowed factors x classes).map fun new =>
          if x.1 = 0 then new else (x.1, Regex.alts rs) :: new
      else none
    | none => none

/-- Where the bytes of a set lead to: an edge takes those that no edge before it took. -/
def moves (allowed : List α → Bool) (factors : List (List (Nat × Nat) × Regex))
    (default : Nat × List α) : List (Edge α) → Nat → Option (List (Nat × Regex))
  | [], bytes => movesOn allowed factors default (splitBy bytes (factors.map fun f => mask f.1))
  | e :: edges, bytes =>
    let taken := bytes &&& mask e.ranges
    match movesOn allowed factors (e.target, e.actions)
        (splitBy taken (factors.map fun f => mask f.1)),
      moves allowed factors default edges (bytes ^^^ taken) with
    | some new, some rest => some (new ++ rest)
    | _, _ => none

/-- One step of the check; `exits` says of a state whether a text may end there, or nothing. -/
def stepsExactly (M : Scanner α) (quiet : α → Bool) (exits : Nat → Option Bool)
    (bytes : Nat) (s : Nat) (r : Regex) : Option (List (Nat × Regex)) :=
  if exits s = some r.nullable then
    match M.row s with
    | ⟨edges, default⟩ => moves (fun as => as.all quiet) r.factors default edges bytes
  else none

/-- From the state the scanner reads exactly the texts of the expression, but for the empty one;
    it takes `allowed` actions at the first byte, and `quiet` ones at the others. -/
def decides (M : Scanner α) (fuel : Nat) (allowed : List α → Bool) (quiet : α → Bool)
    (exits : Nat → Option Bool) (first bytes : Nat) (s : Nat) (r : Regex) : Bool :=
  match moves allowed r.factors (M.row s).default (M.row s).edges first with
  | some new => (RegexTable.explore (M.stepsExactly quiet exits bytes) fuel new []).isSome
  | none => false

/-- What the transition `x` on the byte `b` has to do with the texts of `r`. -/
def MoveOk (allowed : List α → Bool) (r : Regex) (b : UInt8) (x : Nat × List α)
    (new : List (Nat × Regex)) : Prop :=
  (x.1 = 0 ∧ ∀ w, b :: w ∉ r.language) ∨
    x.1 ≠ 0 ∧ ∃ q, (x.1, q) ∈ new ∧ (∀ w, b :: w ∈ r.language ↔ w ∈ q.language) ∧
      ∀ w, b :: w ∈ r.language → allowed x.2 = true

theorem MoveOk.mono {allowed : List α → Bool} {x : Nat × List α} {new new' : List (Nat × Regex)}
    (h : MoveOk allowed r b x new) (hsub : new ⊆ new') : MoveOk allowed r b x new' := by
  rcases h with hdead | ⟨hzero, q, hin, hq⟩
  · exact Or.inl hdead
  · exact Or.inr ⟨hzero, q, hsub hin, hq⟩

theorem movesOn_spec {allowed : List α → Bool} {x : Nat × List α} {classes : List Nat}
    {new : List (Nat × Regex)} (h : movesOn allowed r.factors x classes = some new) {c : Nat}
    (hc : c ∈ classes) (hb : c.testBit b.toNat = true) : MoveOk allowed r b x new := by
  induction classes generalizing new with
  | nil => cases hc
  | cons d classes ih =>
    rw [movesOn] at h
    split at h
    · rename_i rs hrs
      split at h
      · rename_i hok
        obtain ⟨rest, hrest, rfl⟩ := Option.map_eq_some_iff.mp h
        rcases List.mem_cons.mp hc with rfl | hc
        · have hbehind : ∀ w, b :: w ∈ r.language ↔ w ∈ (Regex.alts rs).language := fun w =>
            Regex.cons_mem_language_behind hb hrs
          have hempty : rs.isEmpty = true → ∀ w, b :: w ∉ r.language := by
            intro hnil w hw
            rw [hbehind, Regex.mem_language_alts, List.isEmpty_iff.mp hnil] at hw
            obtain ⟨q, hq, -⟩ := hw
            cases hq
          simp only [Bool.or_eq_true, Bool.and_eq_true, decide_eq_true_eq, ne_eq] at hok
          by_cases hzero : x.1 = 0
          · exact Or.inl ⟨hzero, hempty (hok.resolve_right fun h => h.1 hzero)⟩
          · refine Or.inr ⟨hzero, Regex.alts rs, by simp [hzero], hbehind, fun w hw => ?_⟩
            exact (hok.resolve_left fun hnil => hempty hnil w hw).2
        · refine (ih hrest hc).mono fun y hy => ?_
          split
          · exact hy
          · exact List.mem_cons_of_mem _ hy
      · cases h
    · cases h

theorem moves_spec {allowed : List α → Bool} {bytes : Nat} {new : List (Nat × Regex)}
    (h : moves allowed r.factors (M.row s).default (M.row s).edges bytes = some new)
    (hb : bytes.testBit b.toNat = true) : MoveOk allowed r b (M.next s b) new := by
  rw [next]
  generalize (M.row s).edges = edges at h
  induction edges generalizing bytes new with
  | nil =>
    obtain ⟨c, hc, hbit⟩ := mem_splitBy hb (r.factors.map fun f => mask f.1)
    exact movesOn_spec h hc hbit
  | cons e edges ih =>
    have hcov : (mask e.ranges).testBit b.toNat = e.covers b := testBit_mask e.ranges b
    rw [moves] at h
    split at h
    · rename_i new₁ rest hnew₁ hrest
      cases h
      rw [List.find?_cons]
      cases hc : e.covers b with
      | true =>
        have htaken : (bytes &&& mask e.ranges).testBit b.toNat = true := by
          rw [Nat.testBit_and, hb, hcov, hc]
          rfl
        obtain ⟨c, hc, hbit⟩ := mem_splitBy htaken (r.factors.map fun f => mask f.1)
        exact (movesOn_spec hnew₁ hc hbit).mono (List.subset_append_left _ _)
      | false =>
        refine (ih ?_ hrest).mono (List.subset_append_right _ _)
        rw [Nat.testBit_xor, Nat.testBit_and, hb, hcov, hc]
        rfl
    · cases h

variable {quiet : α → Bool} {exits : Nat → Option Bool} {bytes : Nat}

theorem passes_cons (hbreaks : ∀ a, M.breaks a = false) :
    M.passes s (b :: w) = some t ↔ (M.next s b).1 ≠ 0 ∧ M.passes (M.next s b).1 w = some t := by
  have hbreak : M.breaksOn s b = false := by simp [breaksOn, hbreaks]
  by_cases hzero : (M.next s b).1 = 0 <;> simp [passes, hbreak, hzero]

theorem scan_cons_events (hbreaks : ∀ a, M.breaks a = false) (hzero : (M.next s b).1 ≠ 0)
    (p : Nat) : (M.scan s p (b :: w)).events =
      ((M.next s b).2.map fun a => (p, a)) ++ (M.scan (M.next s b).1 (p + 1) w).events := by
  have hbreak : M.breaksOn s b = false := by simp [breaksOn, hbreaks]
  simp [scan, hbreak, hzero]

/-- The scanner reads the text exactly if it is one of the expression: it may end where the
    scanner is then, and otherwise it may not. -/
structure Exact (M : Scanner α) (exits : Nat → Option Bool) (s : Nat) (r : Regex)
    (w : List UInt8) : Prop where
  reads : w ∈ r.language → ∃ t, M.passes s w = some t ∧ exits t = some true
  fails : ∀ t, M.passes s w = some t → w ∉ r.language → exits t = some false

theorem exact_cons (hbreaks : ∀ a, M.breaks a = false) {q : Regex} (hzero : (M.next s b).1 ≠ 0)
    (hq : b :: w ∈ r.language ↔ w ∈ q.language) (h : M.Exact exits (M.next s b).1 q w) :
    M.Exact exits s r (b :: w) := by
  refine ⟨fun hmem => ?_, fun t ht hmem => ?_⟩
  · obtain ⟨t, ht, hexit⟩ := h.reads (hq.mp hmem)
    exact ⟨t, (passes_cons hbreaks).mpr ⟨hzero, ht⟩, hexit⟩
  · exact h.fails t ((passes_cons hbreaks).mp ht).2 fun hw => hmem (hq.mpr hw)

theorem exact_dead (hbreaks : ∀ a, M.breaks a = false) (hzero : (M.next s b).1 = 0)
    (hdead : b :: w ∉ r.language) : M.Exact exits s r (b :: w) :=
  ⟨fun hmem => absurd hmem hdead, fun _ ht => absurd hzero ((passes_cons hbreaks).mp ht).1⟩

/-- What a visited pair says of a text. -/
theorem exact_of_closed (hbreaks : ∀ a, M.breaks a = false) {table : RegexTable}
    (h : table.Closed (M.stepsExactly quiet exits bytes) []) (hr : r ∈ table.get s)
    (hw : ∀ b ∈ w, bytes.testBit b.toNat = true) :
    M.Exact exits s r w ∧
      (w ∈ r.language → ∀ p, ∀ e ∈ (M.scan s p w).events, quiet e.2 = true) := by
  induction w generalizing s r with
  | nil =>
    obtain ⟨new, hstep, -⟩ := h s r hr
    rw [stepsExactly] at hstep
    split at hstep
    · rename_i hexit
      refine ⟨⟨fun hmem => ⟨s, rfl, ?_⟩, fun t ht hmem => ?_⟩, fun _ p e he => (by cases he)⟩
      · rw [hexit, Regex.nil_mem_language.mp hmem]
      · cases ht
        rw [Regex.nil_mem_language, Bool.not_eq_true] at hmem
        rw [hexit, hmem]
    · cases hstep
  | cons b w ih =>
    rw [List.forall_mem_cons] at hw
    obtain ⟨new, hstep, hnew⟩ := h s r hr
    rw [stepsExactly] at hstep
    split at hstep
    · rcases moves_spec hstep hw.1 with ⟨hzero, hdead⟩ | ⟨hzero, q, hin, hq, hall⟩
      · exact ⟨exact_dead hbreaks hzero (hdead w), fun hmem => absurd hmem (hdead w)⟩
      · obtain ⟨hexact, hquiet⟩ := ih ((hnew _ hin).resolve_right List.not_mem_nil) hw.2
        refine ⟨exact_cons hbreaks hzero (hq w) hexact, fun hmem p e he => ?_⟩
        rw [scan_cons_events hbreaks hzero] at he
        rcases List.mem_append.mp he with he | he
        · obtain ⟨a, ha, rfl⟩ := List.mem_map.mp he
          exact List.all_eq_true.mp (hall w hmem) a ha
        · exact hquiet ((hq w).mp hmem) (p + 1) e he
    · cases hstep

/-- What the check says of a text that is not empty. -/
theorem decides_spec (hbreaks : ∀ a, M.breaks a = false) {fuel : Nat} {allowed : List α → Bool}
    {first : Nat} (h : M.decides fuel allowed quiet exits first bytes s r = true)
    (hb : first.testBit b.toNat = true) (hw : ∀ c ∈ w, bytes.testBit c.toNat = true) :
    M.Exact exits s r (b :: w) ∧
      (b :: w ∈ r.language → allowed (M.next s b).2 = true ∧
        ∀ p, ∀ e ∈ (M.scan (M.next s b).1 p w).events, quiet e.2 = true) := by
  rw [decides] at h
  split at h
  · rename_i new hnew
    obtain ⟨table, hexplore⟩ := Option.isSome_iff_exists.mp h
    obtain ⟨hclosed, htodo, -⟩ := RegexTable.explore_closed hexplore fun s r hr => by cases hr
    rcases moves_spec hnew hb with ⟨hzero, hdead⟩ | ⟨hzero, q, hin, hq, hall⟩
    · exact ⟨exact_dead hbreaks hzero (hdead w), fun hmem => absurd hmem (hdead w)⟩
    · obtain ⟨hexact, hquiet⟩ := exact_of_closed hbreaks hclosed (htodo _ hin) hw
      exact ⟨exact_cons hbreaks hzero (hq w) hexact, fun hmem =>
        ⟨hall w hmem, hquiet ((hq w).mp hmem)⟩⟩
  · cases h

end Scanner

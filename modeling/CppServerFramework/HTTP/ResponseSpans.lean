import CppServerFramework.HTTP.ResponseParserProps

/-!
# The part of a head that a callback depends on

A callback is given texts at positions that were stored before.  Its span reaches from the first
of them to the byte at which it is called, or to the end of its texts.
-/

namespace CppServerFramework.HTTP
open ResponseAction

/-- The positions that the actions store; `lenStart` is where the name began whose length is
    `fieldLen`. -/
structure Positions where
  mark : Nat
  fieldStart : Nat
  fieldLen : Nat
  lenStart : Nat

namespace Positions

def zero : Positions := ⟨0, 0, 0, 0⟩

def after (r : Positions) (e : Nat × ResponseAction) : Positions :=
  match e.2 with
  | .mark | .startValue => { r with mark := e.1 }
  | .startField => { r with fieldStart := e.1 }
  | .writeField => { r with fieldLen := e.1 - r.fieldStart, lenStart := r.fieldStart }
  | _ => r

/-- The span of a callback that stores something. -/
def span (r : Positions) (e : Nat × ResponseAction) : Option (Nat × Nat) :=
  match e.2 with
  | .httpVersion | .statusCode | .reasonPhrase => some (r.mark, e.1 + 1)
  | .writeValue =>
    some (min r.lenStart (min r.fieldStart r.mark), max (e.1 + 1) (r.fieldStart + r.fieldLen))
  | _ => none

def spans : Positions → List (Nat × ResponseAction) → List (Nat × Nat)
  | _, [] => []
  | r, e :: es => (r.span e).toList ++ spans (r.after e) es

def afterAll (r : Positions) (es : List (Nat × ResponseAction)) : Positions := es.foldl after r

theorem spans_append (r : Positions) (es fs : List (Nat × ResponseAction)) :
    r.spans (es ++ fs) = r.spans es ++ (r.afterAll es).spans fs := by
  induction es generalizing r with
  | nil => rfl
  | cons e es ih => simp only [List.cons_append, spans, ih, List.append_assoc, afterAll,
      List.foldl_cons]

/-- What holds of the positions when an action is taken. -/
structure SoundAt (head : Bytes) (r : Positions) (e : Nat × ResponseAction) : Prop where
  lt : e.1 < head.length
  mark : r.mark ≤ e.1
  fieldStart : r.fieldStart ≤ e.1
  lenStart : r.lenStart ≤ r.fieldStart
  field : e.2 = .writeValue → 0 < r.fieldLen
  status : e.2 = .statusCode → head[e.1]? = some 32 ∧ r.mark < e.1 ∧
    ∃ d, head[r.mark]? = some d ∧ 48 ≤ d ∧ d ≤ 57

def Sound (head : Bytes) : Positions → List (Nat × ResponseAction) → Prop
  | _, [] => True
  | r, e :: es => r.SoundAt head e ∧ Sound head (r.after e) es

theorem sound_append {head : Bytes} {r : Positions} {es fs : List (Nat × ResponseAction)} :
    r.Sound head (es ++ fs) ↔ r.Sound head es ∧ (r.afterAll es).Sound head fs := by
  induction es generalizing r with
  | nil => simp [Sound, afterAll]
  | cons e es ih => simp only [List.cons_append, Sound, ih, afterAll, List.foldl_cons, and_assoc]

/-- The span of a callback contains the byte at which it is called. -/
theorem span_bounds {head : Bytes} {r : Positions} {e : Nat × ResponseAction} {sp : Nat × Nat}
    (h : r.SoundAt head e) (hsp : r.span e = some sp) : sp.1 ≤ e.1 ∧ e.1 < sp.2 := by
  have h1 := h.mark
  have h2 := h.fieldStart
  rw [span] at hsp
  split at hsp <;> cases hsp
  · exact ⟨h1, Nat.lt_succ_self _⟩
  · exact ⟨h1, Nat.lt_succ_self _⟩
  · exact ⟨h1, Nat.lt_succ_self _⟩
  · simp only
    omega

theorem mem_spans {head : Bytes} {r : Positions} {es : List (Nat × ResponseAction)}
    {sp : Nat × Nat} (h : r.Sound head es) (hsp : sp ∈ r.spans es) :
    ∃ e ∈ es, sp.1 ≤ e.1 ∧ e.1 < sp.2 := by
  induction es generalizing r with
  | nil => cases hsp
  | cons e es ih =>
    rcases List.mem_append.mp hsp with hsp | hsp
    · exact ⟨e, List.mem_cons_self, span_bounds h.1 (Option.mem_toList.mp hsp)⟩
    · obtain ⟨f, hf, hle⟩ := ih h.2 hsp
      exact ⟨f, List.mem_cons_of_mem e hf, hle⟩

end Positions

/-! ## The table -/

namespace ResponseParser

/-- A field name has been delimited, the present one has begun at an earlier byte, and a number
    has. -/
structure Label where
  field : Bool
  begun : Bool
  number : Bool

namespace Label

/-- What is known in a state of the scanner. -/
def of (s : Nat) : Label where
  field := s = 6 || s = 7 || s = 22 || s = 23 || (35 ≤ s && s ≤ 43) || (61 ≤ s && s ≤ 100) ||
    (112 ≤ s && s ≤ 119) || 121 ≤ s
  begun := s ≠ 1
  number := s = 17

/-- The action uses only what is known. -/
def allows (l : Label) : ResponseAction → Bool
  | .writeField => l.begun
  | .writeValue => l.field
  | .statusCode => l.number
  | _ => true

def after (l : Label) : ResponseAction → Label
  | .mark | .startValue => { l with number := false }
  | .startField => { l with begun := false }
  | .writeField => { l with field := true }
  | _ => l

/-- Taking the actions one after the other, each uses only what is known, and what is to be known
    behind them is. -/
def leads (l : Label) (digit : Bool) : List ResponseAction → Nat → Bool
  | [], t => (!(of t).field || l.field) && (!(of t).number || l.number || digit)
  | a :: as, t => l.allows a && (l.after a).leads digit as t

end Label

/-- A transition is in order: it breaks into a final state, and uses only what is known; a number
    begins with a digit, and a status ends at a space. -/
def transitionOk (s : Nat) (ranges : List (Nat × Nat)) (x : Nat × List ResponseAction) : Bool :=
  (x.2.any (· = .done) == decide (120 ≤ x.1)) &&
    (Label.of s).leads (x.2.contains .mark && ranges == [(48, 57)]) x.2 x.1 &&
    (!x.2.contains .statusCode || ranges == [(32, 32)])

def rowOk (r : ResponseRow) : Bool :=
  r.edges.all (fun e => transitionOk r.state e.ranges (e.target, e.actions)) &&
    transitionOk r.state [] r.default

theorem rows_ok : ResponseRow.rows.all rowOk = true := by decide

/-- What the table says about every byte in every state. -/
structure NextOk (s : Nat) (b : UInt8) (x : Nat × List ResponseAction) : Prop where
  final : x.2.any (· = .done) = decide (120 ≤ x.1)
  leads : ∃ digit, (Label.of s).leads digit x.2 x.1 = true ∧
    (digit = true → ResponseAction.mark ∈ x.2 ∧ 48 ≤ b ∧ b ≤ 57)
  status : ResponseAction.statusCode ∈ x.2 → b = 32

theorem nextOk_of_transitionOk {s : Nat} {b : UInt8} {ranges : List (Nat × Nat)}
    {x : Nat × List ResponseAction} (h : transitionOk s ranges x = true)
    (hcov : ∀ lo hi, ranges = [(lo, hi)] → lo ≤ b.toNat ∧ b.toNat ≤ hi) : NextOk s b x := by
  simp only [transitionOk, Bool.and_eq_true, beq_iff_eq, Bool.or_eq_true,
    Bool.not_eq_true'] at h
  obtain ⟨⟨hfinal, hleads⟩, hstatus⟩ := h
  refine ⟨hfinal, ⟨_, hleads, fun hdigit => ?_⟩, fun hmem => ?_⟩
  · rw [Bool.and_eq_true, beq_iff_eq, List.contains_iff_mem] at hdigit
    have := hcov _ _ hdigit.2
    rw [UInt8.le_iff_toNat_le, UInt8.le_iff_toNat_le]
    exact ⟨hdigit.1, this⟩
  · have hranges := hstatus.resolve_left (by simp [hmem])
    have := hcov _ _ hranges
    exact UInt8.toNat.inj (by simp; omega)

theorem next_ok (s : Nat) (b : UInt8) : NextOk s b (httpclientParserScanner.next s b) := by
  rcases next_row s b with ⟨r, hr, rfl, hnext⟩ | hnext
  · have hrow := List.all_eq_true.mp rows_ok r hr
    simp only [rowOk, Bool.and_eq_true, List.all_eq_true] at hrow
    rcases hnext with ⟨e, he, hcov, hnext⟩ | ⟨-, hnext⟩
    · rw [hnext]
      refine nextOk_of_transitionOk (hrow.1 e he) fun lo hi hranges => ?_
      simpa [Edge.covers, hranges] using hcov
    · rw [hnext]
      exact nextOk_of_transitionOk hrow.2 fun lo hi hranges => (by cases hranges)
  · rw [hnext]
    exact ⟨rfl, ⟨false, rfl, fun h => (by cases h)⟩, fun h => (by cases h)⟩

theorem breaksFinal : httpclientParserScanner.BreaksFinal := by
  intro s b
  rw [Scanner.breaksOn]
  change List.any _ _ = true ↔ 120 ≤ _
  rw [show httpclientParserScanner.breaks = fun a => decide (a = .done) from rfl,
    (next_ok s b).final, decide_eq_true_eq]

/-- The positions lie in front of `p`, and what the label says of them is so. -/
structure Ready (head : Bytes) (p : Nat) (r : Positions) (l : Label) : Prop where
  mark : r.mark ≤ p
  fieldStart : r.fieldStart ≤ p
  lenStart : r.lenStart ≤ r.fieldStart
  field : l.field = true → 0 < r.fieldLen
  begun : l.begun = true → r.fieldStart < p
  number : l.number = true → r.mark < p ∧ ∃ d, head[r.mark]? = some d ∧ 48 ≤ d ∧ d ≤ 57

variable {head : Bytes} {p : Nat} {r : Positions} {l : Label}

theorem ready_after {a : ResponseAction} (h : Ready head p r l) (ha : l.allows a = true) :
    Ready head p (r.after (p, a)) (l.after a) := by
  cases a with
  | mark | startValue =>
    exact ⟨le_rfl, h.fieldStart, h.lenStart, h.field, h.begun, fun hn => (by cases hn)⟩
  | startField =>
    exact ⟨h.mark, le_rfl, h.lenStart.trans h.fieldStart, h.field, fun hb => (by cases hb),
      h.number⟩
  | writeField =>
    refine ⟨h.mark, h.fieldStart, le_rfl, fun _ => ?_, h.begun, h.number⟩
    have := h.begun ha
    simp only [Positions.after]
    omega
  | writeContentLen | writeConnectionClose | writeValue | reasonPhrase | statusCode | httpVersion
  | chunkSize | transChunked | done =>
    exact h

theorem mark_afterAll (as : List ResponseAction) (h : r.mark = p) :
    (r.afterAll (as.map fun a => (p, a))).mark = p := by
  induction as generalizing r with
  | nil => exact h
  | cons a as ih =>
    refine ih ?_
    cases a <;> first | exact h | rfl

/-- The actions of one byte. -/
theorem sound_byte {as : List ResponseAction} {digit : Bool} {t : Nat} (hp : p < head.length)
    (hstatus : ResponseAction.statusCode ∈ as → head[p]? = some 32) (h : Ready head p r l)
    (hl : l.leads digit as t = true) :
    r.Sound head (as.map fun a => (p, a)) ∧
      ∃ l' : Label, Ready head p (r.afterAll (as.map fun a => (p, a))) l' ∧
        l'.leads digit [] t = true ∧
        (ResponseAction.mark ∈ as → (r.afterAll (as.map fun a => (p, a))).mark = p) := by
  induction as generalizing r l with
  | nil => exact ⟨trivial, l, h, hl, fun hmem => (by cases hmem)⟩
  | cons a as ih =>
    rw [Label.leads, Bool.and_eq_true] at hl
    obtain ⟨hsound, l', hready, hlast, hmark⟩ := ih
      (fun hmem => hstatus (List.mem_cons_of_mem a hmem)) (ready_after h hl.1) hl.2
    refine ⟨⟨⟨hp, h.mark, h.fieldStart, h.lenStart, ?_, ?_⟩, hsound⟩, l', hready, hlast, ?_⟩
    · rintro rfl
      exact h.field hl.1
    · rintro rfl
      exact ⟨hstatus List.mem_cons_self, h.number hl.1⟩
    · intro hmem
      rcases List.mem_cons.mp hmem with rfl | hmem
      · exact mark_afterAll as rfl
      · exact hmark hmem

/-- Behind a byte, what the label of the next state says is so. -/
theorem ready_next {s : Nat} {b : UInt8} (hb : head[p]? = some b)
    (h : Ready head p r (.of s)) :
    r.Sound head ((httpclientParserScanner.next s b).2.map fun a => (p, a)) ∧
      Ready head (p + 1) (r.afterAll ((httpclientParserScanner.next s b).2.map fun a => (p, a)))
        (.of (httpclientParserScanner.next s b).1) := by
  have hok := next_ok s b
  obtain ⟨digit, hleads, hdigit⟩ := hok.leads
  obtain ⟨hsound, l', hready, hlast, hmark⟩ := sound_byte (List.getElem?_eq_some_iff.mp hb).1
    (fun hmem => by rw [hb, hok.status hmem]) h hleads
  simp only [Label.leads, Bool.and_eq_true, Bool.or_eq_true, Bool.not_eq_true'] at hlast
  have h1 := hready.mark
  have h2 := hready.fieldStart
  refine ⟨hsound, by omega, by omega, hready.lenStart, fun hf => ?_, fun _ => by omega,
    fun hn => ?_⟩
  · exact hready.field (hlast.1.resolve_left (by simp [hf]))
  · rcases hlast.2 with (hnone | hn) | hd
    · rw [hn] at hnone
      cases hnone
    · obtain ⟨hlt, hget⟩ := hready.number hn
      exact ⟨by omega, hget⟩
    · obtain ⟨hmem, hrange⟩ := hdigit hd
      rw [hmark hmem]
      exact ⟨Nat.lt_succ_self p, b, hb, hrange⟩

/-- The events of a scan are sound: the induction is on what is still to be scanned. -/
theorem sound_scan {s : Nat} (h : Ready head p r (.of s)) :
    r.Sound head (httpclientParserScanner.scan s p (head.drop p)).events := by
  generalize has : head.drop p = as
  induction as generalizing s p r with
  | nil => trivial
  | cons b as ih =>
    have hb : head[p]? = some b := by
      rw [← List.head?_drop, has]
      rfl
    obtain ⟨hsound, hnext⟩ := ready_next hb h
    rw [Scanner.scan]
    split
    · exact hsound
    · split
      · exact hsound
      · refine Positions.sound_append.mpr ⟨hsound, ih hnext ?_⟩
        rw [← List.drop_drop, has]
        rfl

/-- What a whole head does. -/
theorem sound_head (head : Bytes) :
    Positions.zero.Sound head (httpclientParserScanner.scan 1 0 head).events :=
  sound_scan (p := 0) ⟨le_rfl, le_rfl, le_rfl, fun h => (by cases h), fun h => (by cases h),
    fun h => (by cases h)⟩

end ResponseParser

/-- The spans of the callbacks of a head. -/
def headSpans (head : Bytes) : List (Nat × Nat) :=
  Positions.zero.spans (httpclientParserScanner.scan 1 0 head).events

end CppServerFramework.HTTP

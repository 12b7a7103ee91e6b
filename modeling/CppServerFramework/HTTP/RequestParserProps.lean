import Mathlib.Data.List.Find
import Mathlib.Data.List.Infix
import CppServerFramework.HTTP.RequestParser

/-!
# Parsing a head in one piece

What the actions do on a head that is parsed by one call depends on nothing behind it: a
position is set before it is used, and in the same call.  The table says so: a label on each
state tells which positions are set whenever the scanner is in it.
-/

namespace CppServerFramework.HTTP
open CInt RequestAction

/-! ## The table -/

/-- A field name has been delimited since the last one began, and a query has begun. -/
structure Label where
  field : Bool
  query : Bool
  deriving DecidableEq

namespace Label

/-- What is set in a state of the scanner. -/
def of (s : Nat) : Label := ⟨s ≠ 14 ∧ s ≠ 18 ∧ s ≠ 348, s = 30 ∨ s = 31 ∨ s = 32⟩

def le (l m : Label) : Bool := (!l.field || m.field) && (!l.query || m.query)

/-- The action uses only what is set. -/
def allows (l : Label) : RequestAction → Bool
  | .writeValue => l.field
  | .queryString => l.query
  | _ => true

def after (l : Label) : RequestAction → Label
  | .startField => { l with field := false }
  | .writeField => { l with field := true }
  | .startQuery => { l with query := true }
  | _ => l

/-- Taking the actions one after the other, each uses only what is set, and everything that is
    to be set behind them is. -/
def leads (l : Label) : List RequestAction → Label → Bool
  | [], m => m.le l
  | a :: acts, m => l.allows a && (l.after a).leads acts m

end Label

/-- A transition is in order: it breaks into a final state, and uses only positions that are
    set. -/
def transitionOk (s : Nat) (x : Nat × List RequestAction) : Bool :=
  (x.2.any (· = .done) == decide (348 ≤ x.1)) && (x.1 = 0 || (Label.of s).leads x.2 (Label.of x.1))

/-- The method ends at a space. -/
def methodOk (e : Edge RequestAction) : Bool :=
  !e.actions.contains .requestMethod || e.ranges == [(32, 32)]

def rowOk (r : RequestRow) : Bool :=
  (r.toRow true).edges.all (fun e => transitionOk r.state (e.target, e.actions) && methodOk e) &&
    transitionOk r.state r.default && !r.default.2.contains .requestMethod

theorem rows_ok : RequestRow.rows.all rowOk = true := by decide +kernel

theorem edges_subset (r : RequestRow) (uriRelaxed : Bool) :
    ∀ e ∈ (r.toRow uriRelaxed).edges, e ∈ (r.toRow true).edges := by
  intro e he
  simp only [RequestRow.toRow] at he ⊢
  split at he
  · split at he
    · exact he
    · exact List.mem_append_left _ he
  · exact he

theorem mem_toRow {r : RequestRow} {e : Edge RequestAction} (he : e ∈ r.edges)
    (uriRelaxed : Bool) : e ∈ (r.toRow uriRelaxed).edges := by
  simp only [RequestRow.toRow]
  split
  · split
    · exact List.mem_append_left _ he
    · exact he
  · exact he

/-- Every transition is an edge or the default of a row of the table, or fails. -/
theorem next_row (uriRelaxed : Bool) (s : Nat) (b : UInt8) :
    (∃ r ∈ RequestRow.rows, r.state = s ∧ ((∃ e ∈ (r.toRow true).edges, e.covers b = true ∧
      (httpParserScanner uriRelaxed).next s b = (e.target, e.actions)) ∨
        (∀ e ∈ r.edges, e.covers b = false) ∧
          (httpParserScanner uriRelaxed).next s b = r.default)) ∨
      (httpParserScanner uriRelaxed).next s b = (0, []) := by
  cases hfind : RequestRow.rows.find? fun r => r.state = s with
  | none =>
    have hrow : (httpParserScanner uriRelaxed).row s = ⟨[], 0, []⟩ := by
      simp only [httpParserScanner, hfind]
    right
    rw [Scanner.next, hrow]
    rfl
  | some r =>
    have hrow : (httpParserScanner uriRelaxed).row s = r.toRow uriRelaxed := by
      simp only [httpParserScanner, hfind]
    refine Or.inl ⟨r, List.mem_of_find?_eq_some hfind, by simpa using List.find?_some hfind, ?_⟩
    rcases (httpParserScanner uriRelaxed).next_cases s b with ⟨e, he, hcov, hnext⟩ | ⟨hnone, hnext⟩
    · rw [hrow] at he
      exact Or.inl ⟨e, edges_subset r uriRelaxed e he, hcov, hnext⟩
    · rw [hrow] at hnone hnext
      exact Or.inr ⟨fun e he => hnone e (mem_toRow he uriRelaxed), hnext⟩

/-- What the table says about every byte in every state. -/
theorem next_ok (uriRelaxed : Bool) (s : Nat) (b : UInt8) :
    transitionOk s ((httpParserScanner uriRelaxed).next s b) = true ∧
      (requestMethod ∈ ((httpParserScanner uriRelaxed).next s b).2 → b = 32) := by
  rcases next_row uriRelaxed s b with ⟨r, hr, rfl, hnext⟩ | hnext
  · have hok := List.all_eq_true.mp rows_ok r hr
    simp only [rowOk, Bool.and_eq_true, Bool.not_eq_true', List.all_eq_true] at hok
    obtain ⟨⟨hedges, hdflt⟩, hmethod⟩ := hok
    rcases hnext with ⟨e, he, hcov, hnext⟩ | ⟨-, hnext⟩
    · obtain ⟨htrans, hm⟩ := hedges e he
      rw [hnext]
      refine ⟨htrans, fun hmem => ?_⟩
      simp only [methodOk, Bool.or_eq_true, Bool.not_eq_true', beq_iff_eq] at hm
      have hranges := hm.resolve_left (by simp [hmem])
      simp only [Edge.covers, hranges, List.any_cons, List.any_nil, Bool.or_false,
        Bool.and_eq_true, decide_eq_true_eq] at hcov
      exact UInt8.toNat.inj (by simp; omega)
    · rw [hnext]
      refine ⟨hdflt, fun hmem => ?_⟩
      rw [List.contains_eq_mem, decide_eq_false_iff_not] at hmethod
      exact absurd hmem hmethod
  · rw [hnext]
    exact ⟨rfl, fun h => by cases h⟩

theorem breaksFinal (uriRelaxed : Bool) : (httpParserScanner uriRelaxed).BreaksFinal := by
  intro s b
  have h := (next_ok uriRelaxed s b).1
  simp only [transitionOk, Bool.and_eq_true, beq_iff_eq] at h
  rw [Scanner.breaksOn]
  change List.any _ _ = true ↔ 348 ≤ _
  rw [show (httpParserScanner uriRelaxed).breaks = fun a => decide (a = .done) from rfl, h.1,
    decide_eq_true_eq]

theorem leads_of_next {uriRelaxed : Bool} {s : Nat} {b : UInt8}
    (h : ((httpParserScanner uriRelaxed).next s b).1 ≠ 0) :
    (Label.of s).leads ((httpParserScanner uriRelaxed).next s b).2
      (Label.of ((httpParserScanner uriRelaxed).next s b).1) = true := by
  have hok := (next_ok uriRelaxed s b).1
  simp only [transitionOk, Bool.and_eq_true, Bool.or_eq_true, decide_eq_true_eq] at hok
  exact hok.2.resolve_left h

/-! ## Reading inside of the head -/

theorem stringAt_append {head : Bytes} {at' n : Nat} (h : at' + n ≤ head.length)
    (hlen : head.length < 2 ^ 63) (x : Bytes) :
    stringAt (head ++ x) at' n = .ok ((head.drop at').take n) := by
  rw [stringAt, if_neg (by omega), if_neg (by rw [List.length_append]; omega),
    List.drop_append_of_le_length (by omega),
    List.take_append_of_le_length (by rw [List.length_drop]; omega)]

theorem strncmpEq_append {head : Bytes} {at' n : Nat} (h : at' + n ≤ head.length) (lit x : Bytes) :
    strncmpEq (head ++ x) at' lit n = strncmpEq head at' lit n := by
  rw [strncmpEq, strncmpEq, List.drop_append_of_le_length (by omega),
    List.take_append_of_le_length (by rw [List.length_drop]; omega)]

theorem isPrefixOf_append_cons {c : UInt8} {name : Bytes} (hc : c ∉ name) (u x : Bytes) :
    name.isPrefixOf (u ++ c :: x) = name.isPrefixOf u := by
  induction name generalizing u with
  | nil => rfl
  | cons d name ih =>
    rw [List.mem_cons, not_or] at hc
    cases u with
    | nil => simp [List.isPrefixOf, Ne.symm hc.1]
    | cons e u => simp [List.isPrefixOf, ih hc.2]

theorem names_no_space : ∀ x ∈ httpMethodMap, (32 : UInt8) ∉ ascii x.2 := by decide

/-- The method is looked up in what stands before the space behind it. -/
theorem charsToHttpMethod_append (u x : Bytes) :
    charsToHttpMethod (u ++ 32 :: x) = charsToHttpMethod u := by
  have : ∀ y ∈ httpMethodMap,
      (ascii y.2).isPrefixOf (u ++ 32 :: x) = (ascii y.2).isPrefixOf u := fun y hy =>
    isPrefixOf_append_cons (names_no_space y hy) u x
  rw [charsToHttpMethod, charsToHttpMethod, List.find?_congr this]

theorem charsToHttpMethod_drop {head : Bytes} {m p : Nat} (hm : m ≤ p)
    (hp : head[p]? = some 32) (x : Bytes) :
    charsToHttpMethod ((head ++ x).drop m) = charsToHttpMethod ((head.take p).drop m) := by
  obtain ⟨hlt, hget⟩ := List.getElem?_eq_some_iff.mp hp
  have hsplit : head = head.take p ++ 32 :: head.drop (p + 1) := by
    rw [← hget, List.cons_getElem_drop_succ, List.take_append_drop]
  have hdrop : (head ++ x).drop m = (head.take p).drop m ++ 32 :: (head.drop (p + 1) ++ x) := by
    conv_lhs => rw [hsplit]
    rw [List.append_assoc, List.drop_append_of_le_length (by rw [List.length_take]; omega)]
    rfl
  rw [hdrop, charsToHttpMethod_append]

/-! ## One action -/

namespace RequestParser

/-- The positions of the parser lie before `p`, and those of the label are set. -/
structure Ready (s : RequestParser) (p : Nat) (l : Label) : Prop where
  mark : s.mark ≤ p
  fieldStart : s.fieldStart ≤ p
  fieldLen : s.fieldLen ≤ p
  bodyStart : s.bodyStart ≤ p + 1
  field : l.field = true → s.fieldStart + s.fieldLen ≤ p
  query : l.query = true → s.queryStart ≤ p

theorem Ready.mono {s : RequestParser} {p q : Nat} {l m : Label} (h : s.Ready p l) (hpq : p ≤ q)
    (hle : m.le l = true) : s.Ready q m := by
  simp only [Label.le, Bool.and_eq_true, Bool.or_eq_true, Bool.not_eq_true'] at hle
  refine ⟨h.mark.trans hpq, h.fieldStart.trans hpq, h.fieldLen.trans hpq, ?_, fun hf => ?_,
    fun hq => ?_⟩
  · have := h.bodyStart
    omega
  · exact (h.field (hle.1.resolve_left (by simp [hf]))).trans hpq
  · exact (h.query (hle.2.resolve_left (by simp [hq]))).trans hpq

/-- The parts of the parser that the actions leave alone. -/
def SameControl (s t : RequestParser) : Prop :=
  t.cs = s.cs ∧ t.nread = s.nread ∧ t.uriRelaxed = s.uriRelaxed ∧ t.data.body = s.data.body ∧
    t.data.close = s.data.close

theorem act_sameControl {mem : Bytes} {p : Nat} {s t : RequestParser} {a : RequestAction}
    (h : s.act mem p a = .ok t) : SameControl s t := by
  cases a with
  | mark | startValue | startField | writeField | requestUri | startQuery | done | xml | json =>
    cases h
    exact ⟨rfl, rfl, rfl, rfl, rfl⟩
  | requestMethod =>
    cases h
    simp only [onRequestMethod]
    split <;> exact ⟨rfl, rfl, rfl, rfl, rfl⟩
  | httpVersion =>
    cases h
    simp only [onRequestVersion]
    split
    · exact ⟨rfl, rfl, rfl, rfl, rfl⟩
    · split <;> exact ⟨rfl, rfl, rfl, rfl, rfl⟩
  | writeValue =>
    simp only [act, onRequestHttpField, bind, Except.bind, pure, Except.pure] at h
    split at h
    · cases h
      exact ⟨rfl, rfl, rfl, rfl, rfl⟩
    · split at h
      · cases h
      · split at h <;> cases h
        exact ⟨rfl, rfl, rfl, rfl, rfl⟩
  | fragment | queryString | requestPath =>
    simp only [act, bind, Except.bind, pure, Except.pure] at h
    split at h <;> cases h
    exact ⟨rfl, rfl, rfl, rfl, rfl⟩

theorem acts_sameControl {mem : Bytes} {events : List (Nat × RequestAction)}
    {s t : RequestParser} (h : s.acts mem events = .ok t) : SameControl s t := by
  induction events generalizing s with
  | nil =>
    cases h
    exact ⟨rfl, rfl, rfl, rfl, rfl⟩
  | cons e events ih =>
    simp only [acts, List.foldlM_cons, bind, Except.bind] at h
    split at h
    · cases h
    · rename_i u hu
      obtain ⟨h1, h2, h3, h4, h5⟩ := act_sameControl hu
      obtain ⟨h1', h2', h3', h4', h5'⟩ := ih h
      exact ⟨h1'.trans h1, h2'.trans h2, h3'.trans h3, h4'.trans h4, h5'.trans h5⟩

/-- An action inside of the head that uses only what is set does the same whatever stands
    behind the head. -/
theorem act_ready {head : Bytes} {p : Nat} {s : RequestParser} {l : Label} {a : RequestAction}
    (hs : s.Ready p l) (ha : l.allows a = true) (hp : p < head.length)
    (hlen : head.length < 2 ^ 63) (hmethod : a = .requestMethod → head[p]? = some 32) :
    ∃ t : RequestParser, (∀ x, s.act (head ++ x) p a = .ok t) ∧ t.Ready p (l.after a) := by
  have hsub : ∀ {m}, m ≤ p → subSize p m = p - m := fun hm =>
    subSize_of_le hm (by unfold sizeMod; omega)
  have hmark := hsub hs.mark
  have hstr : ∀ {m}, m ≤ p → ∀ x, stringAt (head ++ x) m (p - m) =
      .ok ((head.drop m).take (p - m)) := fun hm x => stringAt_append (by omega) hlen x
  cases a with
  | mark | startValue =>
    exact ⟨_, fun _ => rfl, le_rfl, hs.fieldStart, hs.fieldLen, hs.bodyStart, hs.field, hs.query⟩
  | startField =>
    exact ⟨_, fun _ => rfl, hs.mark, le_rfl, hs.fieldLen, hs.bodyStart, fun h => (by cases h),
      hs.query⟩
  | writeField =>
    have hfield := hsub hs.fieldStart
    have hstart := hs.fieldStart
    refine ⟨_, fun _ => rfl, hs.mark, hs.fieldStart, ?_, hs.bodyStart, fun _ => ?_, hs.query⟩
    · simp only [hfield]
      omega
    · simp only [hfield]
      omega
  | writeValue =>
    simp only [act, onRequestHttpField, hmark]
    split
    · exact ⟨s, fun _ => rfl, hs.mark, hs.fieldStart, hs.fieldLen, hs.bodyStart, hs.field, hs.query⟩
    · have hfield := hs.field ha
      have hkey : ∀ x, stringAt (head ++ x) s.fieldStart s.fieldLen =
          .ok ((head.drop s.fieldStart).take s.fieldLen) := fun x =>
        stringAt_append (by omega) hlen x
      refine ⟨{ s with data := { s.data with
        headers := s.data.headers.set ((head.drop s.fieldStart).take s.fieldLen)
          ((head.drop s.mark).take (p - s.mark)) } }, fun x => ?_, ?_⟩
      · rw [hkey x, hstr hs.mark x]
        rfl
      · exact ⟨hs.mark, hs.fieldStart, hs.fieldLen, hs.bodyStart, hs.field, hs.query⟩
  | requestMethod =>
    refine ⟨s.onRequestMethod ((head.take p).drop s.mark), fun x => ?_, ?_⟩
    · have hm := charsToHttpMethod_drop hs.mark (hmethod rfl) x
      simp only [act, onRequestMethod, hm]
    · simp only [onRequestMethod]
      split <;> exact ⟨hs.mark, hs.fieldStart, hs.fieldLen, hs.bodyStart, hs.field, hs.query⟩
  | requestUri =>
    exact ⟨_, fun _ => rfl, hs.mark, hs.fieldStart, hs.fieldLen, hs.bodyStart, hs.field, hs.query⟩
  | startQuery =>
    exact ⟨_, fun _ => rfl, hs.mark, hs.fieldStart, hs.fieldLen, hs.bodyStart, hs.field,
      fun _ => le_rfl⟩
  | queryString =>
    have hquery := hs.query ha
    refine ⟨{ s with data := { s.data with
      query := (head.drop s.queryStart).take (p - s.queryStart) } }, fun x => ?_, ?_⟩
    · simp only [act, hsub hquery]
      rw [hstr hquery x]
      rfl
    · exact ⟨hs.mark, hs.fieldStart, hs.fieldLen, hs.bodyStart, hs.field, hs.query⟩
  | fragment =>
    refine ⟨{ s with data := { s.data with
      fragment := (head.drop s.mark).take (p - s.mark) } }, fun x => ?_, ?_⟩
    · simp only [act, hmark]
      rw [hstr hs.mark x]
      rfl
    · exact ⟨hs.mark, hs.fieldStart, hs.fieldLen, hs.bodyStart, hs.field, hs.query⟩
  | requestPath =>
    refine ⟨{ s with data := { s.data with
      path := (head.drop s.mark).take (p - s.mark) } }, fun x => ?_, ?_⟩
    · simp only [act, hmark]
      rw [hstr hs.mark x]
      rfl
    · exact ⟨hs.mark, hs.fieldStart, hs.fieldLen, hs.bodyStart, hs.field, hs.query⟩
  | httpVersion =>
    refine ⟨s.onRequestVersion head s.mark (p - s.mark), fun x => ?_, ?_⟩
    · have hm := hs.mark
      have hcmp : ∀ lit, strncmpEq (head ++ x) s.mark lit (p - s.mark) =
          strncmpEq head s.mark lit (p - s.mark) := fun lit =>
        strncmpEq_append (by omega) lit x
      simp only [act, onRequestVersion, hmark, hcmp]
    · simp only [onRequestVersion]
      split
      · exact ⟨hs.mark, hs.fieldStart, hs.fieldLen, hs.bodyStart, hs.field, hs.query⟩
      · split <;> exact ⟨hs.mark, hs.fieldStart, hs.fieldLen, hs.bodyStart, hs.field, hs.query⟩
  | done =>
    refine ⟨_, fun _ => rfl, hs.mark, hs.fieldStart, hs.fieldLen, ?_, hs.field, hs.query⟩
    have := hs.mark
    simp only
    split <;> omega
  | xml | json =>
    exact ⟨_, fun _ => rfl, hs.mark, hs.fieldStart, hs.fieldLen, hs.bodyStart, hs.field, hs.query⟩

/-! ## A whole head -/

theorem acts_append (mem : Bytes) (s : RequestParser) (es fs : List (Nat × RequestAction)) :
    s.acts mem (es ++ fs) = s.acts mem es >>= fun t => t.acts mem fs :=
  List.foldlM_append

/-- The actions of one byte of the head. -/
theorem acts_byte {head : Bytes} {p : Nat} {as : List RequestAction}
    (hp : p < head.length) (hlen : head.length < 2 ^ 63)
    (hmethod : RequestAction.requestMethod ∈ as → head[p]? = some 32) {m : Label} :
    ∀ {s : RequestParser} {l : Label}, s.Ready p l → l.leads as m = true →
      ∃ t : RequestParser, (∀ x, s.acts (head ++ x) (as.map fun a => (p, a)) = .ok t) ∧
        t.Ready p m := by
  induction as with
  | nil => exact fun {s l} hs hl => ⟨s, fun _ => rfl, hs.mono le_rfl hl⟩
  | cons a as ih =>
    intro s l hs hl
    simp only [Label.leads, Bool.and_eq_true] at hl
    obtain ⟨u, hu, hready⟩ := act_ready hs hl.1 hp hlen fun ha =>
      hmethod (ha ▸ List.mem_cons_self)
    obtain ⟨t, ht, hready'⟩ := ih (fun ha => hmethod (List.mem_cons_of_mem _ ha)) hready hl.2
    refine ⟨t, fun x => ?_, hready'⟩
    rw [List.map_cons, acts, List.foldlM_cons, hu x]
    exact ht x

theorem acts_passes {uriRelaxed : Bool} {head post rest : Bytes} {st u : Nat}
    (hlen : head.length < 2 ^ 63) (h : (httpParserScanner uriRelaxed).passes st post = some u) :
    ∀ (pre : Bytes) {s : RequestParser}, head = pre ++ post ++ rest → rest ≠ [] →
      s.Ready pre.length (Label.of st) → ∃ t : RequestParser,
        (∀ x, s.acts (head ++ x)
          ((httpParserScanner uriRelaxed).scan st pre.length post).events = .ok t) ∧
        t.Ready (pre.length + post.length) (Label.of u) := by
  induction post generalizing st with
  | nil =>
    cases h
    exact fun pre s _ _ hs => ⟨s, fun _ => rfl, hs⟩
  | cons b post ih =>
    intro pre s hhead hrest hs
    simp only [Scanner.passes] at h
    split at h
    · cases h
    rename_i hb
    rw [not_or] at hb
    have hget : head[pre.length]? = some b := by
      rw [hhead, List.append_assoc, List.getElem?_append_right le_rfl]
      simp
    have hp : pre.length < head.length := (List.getElem?_eq_some_iff.mp hget).1
    obtain ⟨t, ht, hready⟩ := acts_byte hp hlen
      (fun hm => by rw [hget, (next_ok uriRelaxed st b).2 hm]) hs (leads_of_next hb.2)
    have hpre : (pre ++ [b]).length = pre.length + 1 := by simp
    obtain ⟨v, hv, hready'⟩ := ih h (pre ++ [b]) (s := t)
      (by rw [hhead]; simp) hrest
      (hready.mono (by omega) (by simp [Label.le]))
    rw [hpre] at hv hready'
    refine ⟨v, fun x => ?_, hready'.mono (by rw [List.length_cons]; omega) (by simp [Label.le])⟩
    simp only [Scanner.scan, if_neg hb.1, if_neg hb.2]
    rw [acts_append, ht x]
    exact hv x

/-- The parser behind the actions of a head. -/
def headParser (queryStart : Nat) (uriRelaxed : Bool) (head : Bytes) :
    Except Fault RequestParser :=
  (new queryStart uriRelaxed).acts head
    ((httpParserScanner uriRelaxed).scan (new queryStart uriRelaxed).cs 0 head).events

/-- The actions of a head that is accepted do not fail, and do the same whatever stands behind
    the head. -/
theorem headParser_ok (queryStart : Nat) {uriRelaxed : Bool} {head : Bytes}
    (hlen : head.length < 2 ^ 63) (h : (httpParserScanner uriRelaxed).Accepts 1 head) :
    ∃ t : RequestParser, headParser queryStart uriRelaxed head = .ok t ∧
      (∀ x, (new queryStart uriRelaxed).acts (head ++ x)
        ((httpParserScanner uriRelaxed).scan 1 0 head).events = .ok t) ∧
      t.Ready (head.length - 1) ⟨false, false⟩ := by
  obtain ⟨as, b, u, rfl, hpass, hbreak⟩ := h
  have hnew : (new queryStart uriRelaxed).Ready ([] : Bytes).length (Label.of 1) :=
    ⟨le_rfl, le_rfl, le_rfl, Nat.zero_le _, fun _ => le_rfl, fun hq => (by cases hq)⟩
  obtain ⟨s, hs, hready⟩ := acts_passes hlen hpass [] rfl
    (List.cons_ne_nil b []) hnew
  have hfinal := (breaksFinal uriRelaxed u b).mp hbreak
  have hne : ((httpParserScanner uriRelaxed).next u b).1 ≠ 0 := by
    have : (httpParserScanner uriRelaxed).firstFinal = 348 := rfl
    omega
  rw [List.length_nil, Nat.zero_add] at hready
  obtain ⟨t, ht, hready'⟩ := acts_byte (p := as.length) (by simp) hlen
    (fun hm => by simp [(next_ok uriRelaxed u b).2 hm]) hready (leads_of_next hne)
  have hall : ∀ x, (new queryStart uriRelaxed).acts (as ++ [b] ++ x)
      ((httpParserScanner uriRelaxed).scan 1 0 (as ++ [b])).events = .ok t := by
    intro x
    rw [Scanner.scan_append hpass]
    simp only [Scanner.scan, hbreak, if_true, Nat.zero_add]
    rw [acts_append]
    exact (congrArg (· >>= _) (hs x)).trans (ht x)
  refine ⟨t, ?_, hall, hready'.mono (by simp) (by simp [Label.le])⟩
  have := hall []
  rwa [List.append_nil] at this

/-- One call that has the whole head in its buffer parses the head. -/
theorem execute_head {queryStart : Nat} {uriRelaxed : Bool} {head : Bytes}
    {t : RequestParser} (x garbage : Bytes) (hlen : head.length + x.length < 2 ^ 31)
    (h : (httpParserScanner uriRelaxed).Accepts 1 head)
    (ht : headParser queryStart uriRelaxed head = .ok t) :
    ∃ u : RequestParser, (new queryStart uriRelaxed).execute (head ++ x ++ garbage)
        (head.length + x.length) =
        .ok (u, x ++ (head ++ x ++ garbage).drop x.length, head.length) ∧
      u.data = t.data ∧ u.error = t.error ∧ 348 ≤ u.cs ∧ u.uriRelaxed = uriRelaxed := by
  obtain ⟨t', ht', hall, hready⟩ := headParser_ok queryStart (by omega) h
  rw [ht, Except.ok.injEq] at ht'
  subst ht'
  have hpos := Scanner.length_pos_of_accepts h
  obtain ⟨hcs, hnread, hrelaxed, -⟩ := acts_sameControl ht
  have hscan : (httpParserScanner uriRelaxed).scan 1 0 ((head ++ x ++ garbage).take
      (head.length + x.length)) = (httpParserScanner uriRelaxed).scan 1 0 head := by
    rw [List.take_append_of_le_length (by simp), List.take_of_length_le (by simp),
      Scanner.scan_accepts h]
  have hstop := Scanner.scan_accepts_stop h 0
  rw [Nat.zero_add] at hstop
  have hstate := Scanner.scan_accepts_state (breaksFinal uriRelaxed) h 0
  set u : RequestParser := { t with
    cs := ((httpParserScanner uriRelaxed).scan 1 0 head).state
    nread := addSize t.nread head.length } with hu
  have hread : u.nread = head.length := by
    rw [hu]
    simp only [hnread]
    exact (addSize_of_lt (by unfold sizeMod; simp [new]; omega)).trans (Nat.zero_add _)
  have hcons : u.Consistent (head.length + x.length) := by
    have h1 := hready.mark
    have h2 := hready.fieldStart
    have h3 := hready.fieldLen
    have h4 := hready.bodyStart
    refine ⟨by omega, ?_, ?_, ?_, ?_⟩ <;> simp only [hu] <;> omega
  have hexec : (new queryStart uriRelaxed).httpParserExecute (head ++ x ++ garbage)
      (head.length + x.length) = .ok (u, head.length) := by
    rw [httpParserExecute, if_neg (by omega), if_neg (not_not.mpr (intOfSize_of_lt hlen))]
    have hnew : (new queryStart uriRelaxed).cs = 1 := rfl
    have hrel : (new queryStart uriRelaxed).uriRelaxed = uriRelaxed := rfl
    simp only [hnew, hrel, Nat.one_ne_zero, if_false, hscan, hstop]
    have := hall (x ++ garbage)
    rw [← List.append_assoc] at this
    simp only [this, bind, Except.bind]
    have hcs' : t.cs ≠ 0 := by
      rw [hcs]
      exact Nat.one_ne_zero
    simp only [if_neg hcs']
    rw [if_pos hcons]
    exact congrArg (fun n => Except.ok (u, n)) hread
  refine ⟨u, ?_, rfl, rfl, hstate, hrelaxed⟩
  rw [execute, hexec]
  simp only [bind, Except.bind, pure, Except.pure]
  rw [List.take_append_of_le_length (by simp), List.take_of_length_le (by simp), List.drop_left,
    Nat.add_sub_cancel_left]

/-- What any call that returns has done: `nread` has grown by the bytes scanned, and is the
    number of bytes the buffer is moved by. -/
theorem execute_ok {s t : RequestParser} {mem mem' : Bytes} {len n : Nat} (hcs : s.cs ≠ 0)
    (hlen : len ≠ 0) (h : s.execute mem len = .ok (t, mem', n)) :
    let r := (httpParserScanner s.uriRelaxed).scan s.cs 0 (mem.take len)
    n = addSize s.nread r.stop ∧ n ≤ len ∧ t.nread = n ∧ t.cs = r.state ∧
      t.uriRelaxed = s.uriRelaxed ∧ t.data.body = s.data.body ∧
      mem' = (mem.take len).drop n ++ mem.drop (len - n) := by
  intro r
  rw [execute, httpParserExecute, if_neg hlen] at h
  by_cases hfits : intOfSize len ≠ len
  · rw [if_pos hfits] at h
    cases h
  rw [if_neg hfits] at h
  simp only [if_neg hcs, bind, Except.bind, pure, Except.pure] at h
  cases hacts : s.acts mem r.events with
  | error f => simp only [r, hacts] at h; cases h
  | ok u =>
    obtain ⟨hucs, hunread, hurelaxed, hubody, -⟩ := acts_sameControl hacts
    simp only [r] at hacts
    simp only [hacts, if_neg (hucs ▸ hcs)] at h
    split at h
    · cases h
    · rename_i v hv
      split at hv
      · rename_i hcons
        cases hv
        cases h
        exact ⟨by rw [hunread], hcons.1, rfl, rfl, hurelaxed, hubody, rfl⟩
      · cases hv

theorem eq_of_ite_eq_ok {α : Type} {P : Prop} [Decidable P] {f : Fault} {x y : α}
    (h : (if P then Except.ok x else Except.error f) = Except.ok y) : y = x := by
  split at h <;> cases h
  rfl

/-- No call of the parser changes `m_close`. -/
theorem execute_close {s t : RequestParser} {mem mem' : Bytes} {len n : Nat}
    (h : s.execute mem len = .ok (t, mem', n)) : t.data.close = s.data.close := by
  rw [execute, httpParserExecute] at h
  simp only [bind, Except.bind, pure, Except.pure] at h
  split at h
  · cases h
  · rename_i v hv
    cases h
    split at hv
    · cases hv
      rfl
    · split at hv
      · cases hv
      · split at hv
        · cases hv
        · rename_i u hu
          obtain rfl := eq_of_ite_eq_ok hv
          exact (acts_sameControl hu).2.2.2.2

end RequestParser

end CppServerFramework.HTTP

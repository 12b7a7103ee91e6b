import CppServerFramework.HTTP.Uri
import CppServerFramework.HTTP.UriGrammar
import CppServerFramework.HTTP.UriParts

/-!
# What becomes of a text

The run of `CreateUri` over a text, taken apart where the components of the text meet: each
component is read by the part of the grammar it belongs to, and its actions store it.
-/

namespace CppServerFramework.HTTP

open UriAction UriGrammar

variable {before w rest : Bytes} {b : UInt8} {s t p : Nat} {x y : UriParsing} {v : Uri}

theorem uri_breaks (a : UriAction) : uriParserScanner.breaks a = false := rfl

/-- The query and the fragment are of their grammars. -/
def UriParts.TailGrammatical (u : UriParts) : Prop :=
  (∀ w ∈ u.query, w ∈ UriGrammar.query.language) ∧
    ∀ w ∈ u.fragment, w ∈ UriGrammar.fragment.language

/-- `v` with the query and the fragment. -/
def UriParts.storeTail (u : UriParts) (v : Uri) : Uri :=
  { v with query := u.query.getD v.query, fragment := u.fragment.getD v.fragment }

/-! ## The scanner over a text -/

/-- From state `s` behind `before` the rest `w` of the text makes of `x` the URI `v`. -/
def Leads (before : Bytes) (s : Nat) (x : UriParsing) (w : Bytes) (v : Uri) : Prop :=
  ∃ t, uriParserScanner.passes s w = some t ∧ 451 ≤ t ∧
    ∃ y, x.acts (before ++ w) (uriParserScanner.scan s before.length w).events = .ok y ∧
      ∃ z, y.acts (before ++ w) ((uriParserEof t).map fun a => (before.length + w.length, a)) =
        .ok z ∧ v = z.uri

/-- The actions of one byte, at its position. -/
def UriParsing.does (text : Bytes) (p : Nat) (x : UriParsing) (as : List UriAction) :
    Except UriError UriParsing :=
  x.acts text (as.map fun a => (p, a))

namespace UriParsing

variable {text : Bytes} {events events' : List (Nat × UriAction)} {a : UriAction}
  {as as' : List UriAction}

theorem bind_eq_ok {α β : Type} {e : Except UriError α} {f : α → Except UriError β} {c : β} :
    (e >>= f) = .ok c ↔ ∃ a, e = .ok a ∧ f a = .ok c := by
  cases e <;> simp [bind, Except.bind]

theorem acts_append : x.acts text (events ++ events') = .ok y ↔
    ∃ z, x.acts text events = .ok z ∧ z.acts text events' = .ok y := by
  rw [acts, List.foldlM_append, bind_eq_ok]
  rfl

theorem does_nil : x.does text p [] = .ok x := rfl

theorem does_append : x.does text p (as ++ as') = .ok y ↔
    ∃ z, x.does text p as = .ok z ∧ z.does text p as' = .ok y := by
  rw [does, List.map_append, acts_append]
  rfl

theorem does_singleton : x.does text p [a] = x.act text p a := by
  rw [does, List.map_singleton, acts, List.foldlM_cons]
  cases x.act text p a <;> rfl

theorem does_markU : x.does text p (markU :: as) = does text p ⟨some p, x.uri⟩ as := rfl

theorem marks_markU : x.does text p [markU] = .ok ⟨some p, x.uri⟩ := rfl

theorem marks_markH : x.does text p [markH] = .ok ⟨some p, x.uri⟩ := rfl

theorem does_markH : x.does text p (markH :: as) = does text p ⟨some p, x.uri⟩ as := rfl

/-- What stands between the mark and the position. -/
theorem marked_eq (htext : text = before ++ (w ++ rest)) (hp : p = before.length + w.length)
    (u : Uri) : marked text p ⟨some before.length, u⟩ = .ok w := by
  subst htext hp
  simp [marked]

section

variable (w) (htext : text = before ++ (w ++ rest)) (hp : p = before.length + w.length) (u : Uri)

include htext hp

theorem does_saveScheme : does text p ⟨some before.length, u⟩ [saveScheme] =
    .ok ⟨none, { u with scheme := w }⟩ := by
  rw [does_singleton, act, marked_eq htext hp]
  rfl

theorem does_saveUserinfo : does text p ⟨some before.length, u⟩ [saveUserinfo] =
    .ok ⟨none, { u with userinfo := w }⟩ := by
  rw [does_singleton, act, marked_eq htext hp]
  rfl

theorem does_saveHost : does text p ⟨some before.length, u⟩ (saveHost :: as) =
    does text p ⟨some before.length, { u with host := w }⟩ as := by
  have hact : act text p ⟨some before.length, u⟩ saveHost =
      .ok ⟨some before.length, { u with host := w }⟩ := by
    rw [act, marked_eq htext hp]
    rfl
  rw [does, List.map_cons, acts, List.foldlM_cons, hact]
  rfl

theorem does_savePath : does text p ⟨some before.length, u⟩ [savePath] =
    .ok ⟨none, { u with path := w }⟩ := by
  rw [does_singleton, act, marked_eq htext hp]
  rfl

theorem does_saveQuery : does text p ⟨some before.length, u⟩ [saveQuery] =
    .ok ⟨none, { u with query := w }⟩ := by
  rw [does_singleton, act, marked_eq htext hp]
  rfl

theorem does_saveFragment : does text p ⟨some before.length, u⟩ [saveFragment] =
    .ok ⟨none, { u with fragment := w }⟩ := by
  rw [does_singleton, act, marked_eq htext hp]
  rfl

end

end UriParsing

open UriParsing

theorem scan_state_of_passes (s p : Nat) (w : Bytes) :
    (uriParserScanner.scan s p w).state = (uriParserScanner.passes s w).getD 0 := by
  cases h : uriParserScanner.passes s w with
  | some t => exact (uriParserScanner.scan_passes h p).1
  | none =>
    induction w generalizing s p with
    | nil => cases h
    | cons b w ih =>
      have hbreak : uriParserScanner.breaksOn s b = false := by
        simp [Scanner.breaksOn, uri_breaks]
      rw [Scanner.passes] at h
      rw [Scanner.scan, hbreak]
      split at h
      · rename_i hzero
        rw [hbreak] at hzero
        simp [hzero.resolve_left (by decide)]
      · rename_i hzero
        rw [not_or] at hzero
        simpa [hzero.2] using ih _ _ h

theorem createUri_eq_some :
    Uri.createUri w = .ok (some v) ↔ Leads [] 451 ⟨none, {}⟩ w v := by
  have hstate := scan_state_of_passes 451 0 w
  simp only [Uri.createUri, bind_eq_ok, show uriParserScanner.start = 451 from rfl,
    show uriParserScanner.firstFinal = 451 from rfl, hstate]
  constructor
  · rintro ⟨y, hy, h⟩
    cases hpass : uriParserScanner.passes 451 w with
    | none =>
      simp only [hpass, Option.getD_none, if_true] at h
      cases h
    | some t =>
      simp only [hpass, Option.getD_some] at h
      split at h
      · cases h
      · obtain ⟨z, hz, h⟩ := bind_eq_ok.mp h
        split at h
        · rename_i hfinal
          cases h
          exact ⟨t, hpass, hfinal, y, hy, z, by simpa using hz, rfl⟩
        · cases h
  · rintro ⟨t, hpass, hfinal, y, hy, z, hz, rfl⟩
    refine ⟨y, hy, ?_⟩
    rw [hpass, Option.getD_some, if_neg (by omega), bind_eq_ok]
    exact ⟨z, by simpa using hz, if_pos hfinal⟩

theorem slash_mem_pathAbempty :
    47 :: w ∈ pathAbempty.language ↔ w ∈ (Regex.seq segment pathAbempty).language := by
  rw [Regex.cons_mem_language,
    show pathAbempty.factors = [([(47, 47)], Regex.seq segment pathAbempty)] from rfl]
  simp [inRanges]

theorem nil_mem_path : [] ∈ (Regex.seq segment pathAbempty).language :=
  Regex.nil_mem_language.mpr (by decide)

theorem final_of_endsWith (h : endsWith t as = true) : 451 ≤ t := by
  simp only [endsWith, Bool.and_eq_true, decide_eq_true_eq] at h
  exact h.1.1.1

namespace Leads

theorem nil : Leads before s x [] v ↔
    451 ≤ s ∧ ∃ z, x.does before before.length (uriParserEof s) = .ok z ∧ v = z.uri := by
  constructor
  · rintro ⟨t, hpass, hfinal, y, hy, z, hz, rfl⟩
    cases hpass
    cases hy
    exact ⟨hfinal, z, by simpa [does] using hz, rfl⟩
  · rintro ⟨hfinal, z, hz, rfl⟩
    exact ⟨s, rfl, hfinal, x, rfl, z, by simpa [does] using hz, rfl⟩

theorem append (h : uriParserScanner.passes s w = some t) : Leads before s x (w ++ rest) v ↔
    ∃ y, x.acts (before ++ (w ++ rest)) (uriParserScanner.scan s before.length w).events = .ok y ∧
      Leads (before ++ w) t y rest v := by
  rw [Leads, Scanner.passes_append h, Scanner.scan_append h]
  simp only [acts_append, Leads, List.append_assoc, List.length_append, Nat.add_assoc]
  constructor
  · rintro ⟨u, hu, hfinal, y, ⟨y', hy', hy⟩, hz⟩
    exact ⟨y', hy', u, hu, hfinal, y, hy, hz⟩
  · rintro ⟨y', hy', u, hu, hfinal, y, hy, hz⟩
    exact ⟨u, hu, hfinal, y, ⟨y', hy', hy⟩, hz⟩

theorem passes (h : Leads before s x (w ++ rest) v) :
    ∃ t, uriParserScanner.passes s w = some t :=
  let ⟨_, hpass, _⟩ := h
  let ⟨t, ht, _⟩ := Scanner.passes_of_append hpass
  ⟨t, ht⟩

/-- One byte. -/
theorem cons : Leads before s x (b :: rest) v ↔ (uriParserScanner.next s b).1 ≠ 0 ∧
    ∃ y, x.does (before ++ b :: rest) before.length (uriParserScanner.next s b).2 = .ok y ∧
      Leads (before ++ [b]) (uriParserScanner.next s b).1 y rest v := by
  constructor
  · intro h
    obtain ⟨t, ht⟩ := h.passes (w := [b])
    obtain ⟨hzero, -⟩ := (Scanner.passes_cons uri_breaks).mp ht
    have hpass : uriParserScanner.passes s [b] = some (uriParserScanner.next s b).1 :=
      (Scanner.passes_cons uri_breaks).mpr ⟨hzero, rfl⟩
    obtain ⟨y, hy, h⟩ := (append hpass).mp (show Leads before s x ([b] ++ rest) v from h)
    rw [Scanner.scan_cons_events uri_breaks hzero] at hy
    exact ⟨hzero, y, by simpa [does, Scanner.scan] using hy, h⟩
  · rintro ⟨hzero, y, hy, h⟩
    have hpass : uriParserScanner.passes s [b] = some (uriParserScanner.next s b).1 :=
      (Scanner.passes_cons uri_breaks).mpr ⟨hzero, rfl⟩
    change Leads before s x ([b] ++ rest) v
    refine (append hpass).mpr ⟨y, ?_, h⟩
    rw [Scanner.scan_cons_events uri_breaks hzero]
    simpa [does, Scanner.scan] using hy

variable {may must : Nat → Bool} {first : List UriAction} {r : Regex}

theorem ends (h : Leads before s x w v) (hstop : Stops [47, 63, 35] w) :
    UriGrammar.ends s = true := by
  simp only [UriGrammar.ends, Bool.or_eq_true, decide_eq_true_eq, ne_eq]
  cases w with
  | nil => exact Or.inl (Or.inl (Or.inl (nil.mp h).1))
  | cons b w =>
    have hzero := (cons.mp h).1
    rcases List.mem_cons.mp (stops_cons.mp hstop) with rfl | hb
    · exact Or.inl (Or.inl (Or.inr hzero))
    · rcases List.mem_cons.mp hb with rfl | hb
      · exact Or.inl (Or.inr hzero)
      · obtain rfl := List.mem_singleton.mp hb
        exact Or.inr hzero

theorem must_of_exitsBy (h : exitsBy may must t = some true) : must t = true := by
  rw [exitsBy] at h
  split at h
  · exact Option.some.inj h
  · cases h

theorem may_of_exitsBy (h : exitsBy may must t = some false) : may t = false := by
  rw [exitsBy] at h
  split at h
  · rename_i heq
    rw [heq]
    exact Option.some.inj h
  · cases h

/-- A part of the text, where only what `may` allows leads on behind it. -/
theorem part {fuel first' bytes : Nat} {allowed : List UriAction → Bool} {quiet : UriAction → Bool}
    (h : uriParserScanner.decides fuel allowed quiet (exitsBy may must) first' bytes s r = true)
    (hb : first'.testBit b.toNat = true) (hw : ∀ c ∈ w, bytes.testBit c.toNat = true)
    (hmay : ∀ t y, Leads (before ++ b :: w) t y rest v → may t = true) :
    (Leads before s x (b :: w ++ rest) v → b :: w ∈ r.language) ∧
      (b :: w ∈ r.language → allowed (uriParserScanner.next s b).2 = true ∧
        ∃ t events, must t = true ∧ (∀ e ∈ events, quiet e.2 = true) ∧
          (Leads before s x (b :: w ++ rest) v ↔
            ∃ y, x.does (before ++ (b :: w ++ rest)) before.length
              (uriParserScanner.next s b).2 = .ok y ∧
            ∃ z, y.acts (before ++ (b :: w ++ rest)) events = .ok z ∧
              Leads (before ++ b :: w) t z rest v)) := by
  obtain ⟨hexact, hevents⟩ := Scanner.decides_spec uri_breaks h hb hw
  refine ⟨fun hl => ?_, fun hmem => ?_⟩
  · obtain ⟨t, ht⟩ := hl.passes
    obtain ⟨y, -, hl⟩ := (append ht).mp hl
    by_contra hmem
    have := may_of_exitsBy (hexact.fails t ht hmem)
    rw [hmay t y hl] at this
    cases this
  · obtain ⟨t, ht, hexit⟩ := hexact.reads hmem
    obtain ⟨hallowed, hquiet⟩ := hevents hmem
    refine ⟨hallowed, t, _, must_of_exitsBy hexit, hquiet (before.length + 1), ?_⟩
    rw [append ht, Scanner.scan_cons_events uri_breaks ((Scanner.passes_cons uri_breaks).mp ht).1]
    simp only [acts_append, UriParsing.does]
    constructor
    · rintro ⟨y, ⟨z, hz, hy⟩, hl⟩
      exact ⟨z, hz, y, hy, hl⟩
    · rintro ⟨z, hz, y, hy, hl⟩
      exact ⟨y, ⟨z, hz, hy⟩, hl⟩

/-- A part whose first byte takes the actions `first`, and no other byte takes any. -/
theorem part_iff {fuel first' bytes : Nat} {P : Prop}
    (h : uriParserScanner.decides fuel (· = first) (fun _ => false) (exitsBy may must) first' bytes
      s r = true)
    (hb : first'.testBit b.toNat = true) (hw : ∀ c ∈ w, bytes.testBit c.toNat = true)
    (hmay : ∀ t y, Leads (before ++ b :: w) t y rest v → may t = true)
    (hy : x.does (before ++ (b :: w ++ rest)) before.length first = .ok y)
    (hmust : b :: w ∈ r.language → ∀ t, must t = true →
      (Leads (before ++ b :: w) t y rest v ↔ P)) :
    Leads before s x (b :: w ++ rest) v ↔ b :: w ∈ r.language ∧ P := by
  obtain ⟨hmem, hread⟩ := part (x := x) h hb hw hmay
  have hsame : b :: w ∈ r.language → (Leads before s x (b :: w ++ rest) v ↔ P) := by
    intro hr
    obtain ⟨hfirst, t, events, ht, hquiet, hl⟩ := hread hr
    have hnone : events = [] := by
      cases events with
      | nil => rfl
      | cons e events => exact absurd (hquiet e List.mem_cons_self) (by simp)
    rw [hl, hnone, of_decide_eq_true hfirst, hy, ← hmust hr t ht]
    constructor
    · rintro ⟨z, hz, z', hz', hl⟩
      cases hz
      cases hz'
      exact hl
    · intro hl
      exact ⟨y, rfl, y, rfl, hl⟩
  exact ⟨fun hl => ⟨hmem hl, (hsame (hmem hl)).mp hl⟩, fun ⟨hr, hP⟩ => (hsame hr).mpr hP⟩

theorem testBit_of_not_mem {ds : List UInt8} (h : b ∉ ds) :
    (without (ds.map UInt8.toNat)).testBit b.toNat = true := by
  refine testBit_without fun hin => ?_
  obtain ⟨d, hd, heq⟩ := List.mem_map.mp hin
  exact h (UInt8.toNat_inj.mp heq ▸ hd)

theorem decidesPart_iff (es ds : List UInt8) {exits : Nat → Option Bool} {P : Prop}
    (h : decidesPart first exits (es.map UInt8.toNat) (ds.map UInt8.toNat) s r = true)
    (hexits : exits = exitsBy may must) (hb : b ∉ es) (hw : Free ds w)
    (hmay : ∀ t y, Leads (before ++ b :: w) t y rest v → may t = true)
    (hy : x.does (before ++ (b :: w ++ rest)) before.length first = .ok y)
    (hmust : b :: w ∈ r.language → ∀ t, must t = true →
      (Leads (before ++ b :: w) t y rest v ↔ P)) :
    Leads before s x (b :: w ++ rest) v ↔ b :: w ∈ r.language ∧ P := by
  rw [hexits] at h
  exact part_iff h (testBit_of_not_mem hb) (fun c hc => testBit_of_not_mem (hw c hc)) hmay hy hmust

/-- What is left is the fragment. -/
theorem fragment_iff :
    Leads before 453 x w v ↔ w ∈ fragment.language ∧ v = { x.uri with fragment := w } := by
  cases w with
  | nil =>
    have hsave : does before before.length ⟨some before.length, x.uri⟩ [saveFragment] =
        .ok ⟨none, { x.uri with fragment := [] }⟩ :=
      does_saveFragment [] (show before = before ++ ([] ++ []) by simp) rfl x.uri
    rw [nil, show uriParserEof 453 = [markU, saveFragment] by decide, does_markU, hsave]
    simp [Regex.nil_mem_language, show fragment.nullable = true by decide]
  | cons b w =>
    have hsave : does (before ++ b :: w) (before ++ b :: w).length ⟨some before.length, x.uri⟩
        [saveFragment] = .ok ⟨none, { x.uri with fragment := b :: w }⟩ :=
      does_saveFragment _ (show before ++ b :: w = before ++ (b :: w ++ []) by simp) (by simp) x.uri
    suffices h : Leads before 453 x (b :: w ++ []) v ↔ b :: w ∈ fragment.language ∧
        v = { x.uri with fragment := b :: w } by rwa [List.append_nil] at h
    refine decidesPart_iff [] [] decides_parts.2.2.2.2.2 rfl List.not_mem_nil
      (fun _ _ => List.not_mem_nil) (fun t y h => by simpa using (nil.mp h).1) marks_markU
      fun _ t ht => ?_
    simp only [Bool.and_eq_true, decide_eq_true_eq] at ht
    rw [nil, ht.2, hsave]
    simp [ht.1]

/-- The end of the text or of a query. -/
theorem optFragment_iff {as : List UriAction} {f : Option Bytes} (hfinal : 451 ≤ t)
    (heof : uriParserEof t = as) (hnext : uriParserScanner.next t 35 = (453, as)) :
    Leads before t x (prefixed [35] f) v ↔ (∀ w ∈ f, w ∈ fragment.language) ∧
      ∃ y, x.does (before ++ prefixed [35] f) before.length as = .ok y ∧
        v = { y.uri with fragment := f.getD y.uri.fragment } := by
  cases f with
  | none => simp [prefixed, nil, hfinal, heof]
  | some w =>
    rw [prefixed, List.singleton_append, cons, hnext]
    simp only [fragment_iff, Option.mem_some_iff, forall_eq', Option.getD_some]
    constructor
    · rintro ⟨-, y, hy, hw, hv⟩
      exact ⟨hw, y, hy, hv⟩
    · rintro ⟨hw, y, hy, hv⟩
      exact ⟨by decide, y, hy, hw, hv⟩

theorem query_iff {q : Bytes} {f : Option Bytes} (hq : Free [35] q) :
    Leads before 456 x (q ++ prefixed [35] f) v ↔ q ∈ query.language ∧
      (∀ w ∈ f, w ∈ fragment.language) ∧
        v = { x.uri with query := q, fragment := f.getD x.uri.fragment } := by
  cases q with
  | nil =>
    have hsave : does (before ++ prefixed [35] f) before.length ⟨some before.length, x.uri⟩
        [saveQuery] = .ok ⟨none, { x.uri with query := [] }⟩ :=
      does_saveQuery [] rfl rfl x.uri
    have heof : uriParserEof 456 = [markU, saveQuery] := by decide
    rw [List.nil_append, optFragment_iff (by decide) heof (by decide), does_markU, hsave]
    simp [Regex.nil_mem_language, show query.nullable = true by decide]
  | cons b q =>
    refine decidesPart_iff [35] [35] decides_parts.2.2.2.2.1 rfl (free_cons.mp hq).1
      (free_cons.mp hq).2 (fun t y h => ?_) marks_markU fun _ t ht => ?_
    · cases f with
      | none => simp [(nil.mp h).1]
      | some w => simp [(cons.mp h).1]
    · simp only [Bool.and_eq_true, decide_eq_true_eq] at ht
      rw [optFragment_iff ht.1.1 ht.1.2 ht.2,
        does_saveQuery _ (List.append_assoc before _ _) List.length_append]
      simp

variable {u : UriParts} {as : List UriAction} {a : Hier}

/-- What stands behind the path. -/
theorem tail_iff (hend : endsWith t as = true) (hu : u.Delimited) :
    Leads before t x u.tail v ↔ u.TailGrammatical ∧
      ∃ y, x.does (before ++ u.tail) before.length as = .ok y ∧ v = u.storeTail y.uri := by
  obtain ⟨scheme, authority, path, q, f⟩ := u
  simp only [endsWith, Bool.and_eq_true, decide_eq_true_eq] at hend
  obtain ⟨⟨⟨hfinal, heof⟩, h63⟩, h35⟩ := hend
  simp only [UriParts.tail, UriParts.TailGrammatical, UriParts.storeTail]
  cases q with
  | none => simpa [prefixed] using optFragment_iff hfinal heof h35
  | some q =>
    rw [prefixed, List.singleton_append, List.cons_append, cons, h63]
    simp only [query_iff (hu.query q rfl), Option.mem_some_iff, forall_eq', Option.getD_some]
    constructor
    · rintro ⟨-, y, hy, hw, hf, hv⟩
      exact ⟨⟨hw, hf⟩, y, hy, hv⟩
    · rintro ⟨⟨hw, hf⟩, y, hy, hv⟩
      exact ⟨by decide, y, hy, hw, hf, hv⟩

/-- A path, from a state in which it is not read again from its beginning. -/
theorem path_iff (es : List UInt8) {e : Nat} (hdec : decidesPath s e (es.map UInt8.toNat) = true)
    (hend : endsWith e as = true) (hu : u.Delimited) (hb : b ∉ es) (hw : Free [63, 35] w) :
    Leads before s x (b :: w ++ u.tail) v ↔ b :: w ∈ (Regex.seq segment pathAbempty).language ∧
      u.TailGrammatical ∧ ∃ y, x.does (before ++ (b :: w ++ u.tail)) (before ++ b :: w).length as =
        .ok y ∧ v = u.storeTail y.uri := by
  refine decidesPart_iff es [63, 35] hdec rfl hb hw (fun t y h => h.ends ?_) does_nil
    fun _ t ht => ?_
  · exact fun c hc => List.mem_cons_of_mem 47 (u.tail_stops c hc)
  · rw [of_decide_eq_true ht, tail_iff hend hu, List.append_assoc]

/-- A path that is empty or begins with a slash, behind an authority or a segment. -/
theorem abempty_iff (hc : a.Checked) (hd : a.Delimiting) (hu : u.Delimited)
    (hleaves : a.leaves t as = true) (hstop : Stops [47] w) (hfree : Free [63, 35] w) :
    Leads before t x (w ++ u.tail) v ↔ w ∈ pathAbempty.language ∧ u.TailGrammatical ∧
      ∃ y, x.does (before ++ (w ++ u.tail)) before.length as = .ok y ∧
        ∃ z, y.does (before ++ (w ++ u.tail)) (before ++ w).length a.fin = .ok z ∧
          v = u.storeTail z.uri := by
  simp only [Hier.leaves, Bool.and_eq_true, decide_eq_true_eq] at hleaves
  cases w with
  | nil =>
    rw [List.nil_append, tail_iff hleaves.1 hu, List.append_nil]
    have hnil : [] ∈ pathAbempty.language := Regex.nil_mem_language.mpr (by decide)
    simp only [does_append, hnil, true_and]
    refine and_congr_right fun _ => ⟨?_, ?_⟩
    · rintro ⟨z, ⟨y, hy, hz⟩, hv⟩
      exact ⟨y, hy, z, hz, hv⟩
    · rintro ⟨y, hy, z, hz, hv⟩
      exact ⟨z, ⟨y, hy, hz⟩, hv⟩
  | cons b w =>
    obtain rfl := List.mem_singleton.mp (stops_cons.mp hstop)
    rw [slash_mem_pathAbempty, List.cons_append, cons, hleaves.2]
    have hrest : ∀ y, Leads (before ++ [47]) a.path y (w ++ u.tail) v ↔
        w ∈ (Regex.seq segment pathAbempty).language ∧ u.TailGrammatical ∧
          ∃ z, y.does (before ++ 47 :: (w ++ u.tail)) (before ++ 47 :: w).length a.fin = .ok z ∧
            v = u.storeTail z.uri := by
      intro y
      cases w with
      | nil =>
        have htail : Leads (before ++ [47]) a.path y u.tail v ↔ _ := tail_iff hd.path hu
        simpa [nil_mem_path] using htail
      | cons c w =>
        obtain ⟨hc', hw⟩ := free_cons.mp (free_cons.mp hfree).2
        have hpath : Leads (before ++ [47]) a.path y (c :: w ++ u.tail) v ↔ _ :=
          path_iff [63, 35] hc.path hd.path hu hc' hw
        simpa using hpath
    simp only [hrest]
    have hzero : a.path ≠ 0 := by have := final_of_endsWith hd.path; omega
    constructor
    · rintro ⟨-, y, hy, hw, htail, hz⟩
      exact ⟨hw, htail, y, hy, hz⟩
    · rintro ⟨hw, htail, y, hy, hz⟩
      exact ⟨hzero, y, hy, hw, htail, hz⟩

end Leads

end CppServerFramework.HTTP

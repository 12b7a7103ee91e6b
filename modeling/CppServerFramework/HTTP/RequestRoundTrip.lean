import CppServerFramework.HTTP.Dump
import CppServerFramework.HTTP.RequestGrammar
import CppServerFramework.HTTP.RequestParserProps

/-!
# Parsing what `dump` writes

The parser reads the head of a request that `HttpRequest::dump` has written piece by piece: the
method, the target, the version, and one header line after the other.
-/

namespace CppServerFramework.HTTP
open CInt RequestAction RequestGrammar

/-- A request whose head can be parsed: the parts are in the grammar, and the header map has no
    line for the connection or the length of the body. -/
structure HttpRequest.Writable (uriRelaxed : Bool) (r : HttpRequest) : Prop where
  method : r.method ≠ .invalidMethod
  notSearch : r.method ≠ .msearch
  version : r.version = 0x10 ∨ r.version = 0x11
  path : r.path ∈ relativePart.language ∧ Allowed uriRelaxed r.path
  query : r.query ∈ RequestGrammar.query.language ∧ Allowed uriRelaxed r.query
  fragment : r.fragment ∈ RequestGrammar.fragment.language ∧ Allowed uriRelaxed r.fragment
  keys : r.headers.Pairwise fun a b => sameKey a.1 b.1 = false
  headers : ∀ e ∈ r.headers, e.1 ∈ fieldName.language ∧ e.2 ∈ fieldValue.language ∧
    sameKey e.1 (ascii "connection") = false ∧ sameKey e.1 (ascii "content-length") = false

namespace RequestParser

variable {m : HttpMethod} {name : String} {uriRelaxed : Bool} {st st' st₁ : Nat}
  {s s' s₁ : RequestParser} {pre seg a b : Bytes}

/-- Reading `seg` behind `pre`: the scanner goes from `st` to `st'`, and the actions take the
    parser from `s` to `s'`, whatever stands behind. -/
structure Reads (uriRelaxed : Bool) (st : Nat) (s : RequestParser) (pre seg : Bytes) (st' : Nat)
    (s' : RequestParser) : Prop where
  passes : (httpParserScanner uriRelaxed).passes st seg = some st'
  acts : ∀ rest, (pre ++ seg ++ rest).length < 2 ^ 63 → s.acts (pre ++ seg ++ rest)
    ((httpParserScanner uriRelaxed).scan st pre.length seg).events = .ok s'

theorem Reads.trans (h : Reads uriRelaxed st s pre a st₁ s₁)
    (h' : Reads uriRelaxed st₁ s₁ (pre ++ a) b st' s') :
    Reads uriRelaxed st s pre (a ++ b) st' s' where
  passes := (Scanner.passes_append h.passes b).trans h'.passes
  acts rest hlen := by
    have hfirst := h.acts (b ++ rest) (by simpa [Nat.add_assoc] using hlen)
    have hsecond := h'.acts rest (by simpa [Nat.add_assoc] using hlen)
    rw [Scanner.scan_append h.passes, acts_append]
    simp only [← List.append_assoc, List.length_append] at hfirst hsecond ⊢
    rw [hfirst]
    exact hsecond

/-- Reading one byte. -/
theorem Reads.byte {c : UInt8} {as : List RequestAction}
    (hnext : (httpParserScanner uriRelaxed).next st c = (st', as)) (hne : st' ≠ 0)
    (hdone : as.any (fun a => a = .done) = false)
    (hacts : ∀ rest, (pre ++ [c] ++ rest).length < 2 ^ 63 →
      s.acts (pre ++ [c] ++ rest) (as.map fun a => (pre.length, a)) = .ok s') :
    Reads uriRelaxed st s pre [c] st' s' := by
  have hbreak : (httpParserScanner uriRelaxed).breaksOn st c = false := by
    rw [Scanner.breaksOn, hnext]
    exact hdone
  refine ⟨?_, fun rest hlen => ?_⟩
  · rw [Scanner.passes, if_neg (by simp [hbreak, hnext, hne]), hnext]
    rfl
  · rw [← hacts rest hlen]
    simp [Scanner.scan, hbreak, hnext, hne]

/-- Reading a part whose first byte has one action that only stores the position. -/
theorem Reads.part {w : Bytes} {act : RequestAction}
    (hpass : (httpParserScanner uriRelaxed).passes st w = some st')
    (hevents : ∀ p, ((httpParserScanner uriRelaxed).scan st p w).events = [(p, act)])
    (hact : ∀ mem, s.act mem pre.length act = .ok s') : Reads uriRelaxed st s pre w st' s' := by
  refine ⟨hpass, fun rest _ => ?_⟩
  rw [hevents, RequestParser.acts, List.foldlM_cons, hact]
  rfl

/-- The string from a stored position up to the present one. -/
theorem stringAt_part {w : Bytes} (rest : Bytes) (hlen : (pre ++ w ++ rest).length < 2 ^ 63) :
    stringAt (pre ++ w ++ rest) pre.length (subSize (pre ++ w).length pre.length) = .ok w := by
  simp only [List.length_append] at hlen
  rw [List.length_append, subSize_of_le (by omega) (by unfold sizeMod; omega),
    Nat.add_sub_cancel_left, List.append_assoc, stringAt, if_neg (by omega),
    if_neg (by simp only [List.length_append]; omega), List.drop_left, List.take_left]

/-! ## The request line -/

theorem methods_read : ∀ x ∈ httpMethodMap, x.1 ≠ .msearch →
    ascii x.2 ∈ RequestGrammar.method.language := by
  decide +kernel

theorem methods_found : ∀ x ∈ httpMethodMap, charsToHttpMethod (ascii x.2) = x.1 := by
  decide +kernel

/-- The method and the blank behind it. -/
theorem reads_requestMethod (hm : (m, name) ∈ httpMethodMap) (hsearch : m ≠ .msearch) :
    Reads uriRelaxed 1 s [] (ascii name ++ [32]) 3
      { s with mark := 0, data := { s.data with method := m } } := by
  have hword := methods_read _ hm hsearch
  have hne : ascii name ≠ [] := by
    intro hnil
    rw [hnil] at hword
    exact absurd hword (by decide)
  obtain ⟨t, hpass, hevents, hexit⟩ := method_read uriRelaxed hword hne
  have hpart : Reads uriRelaxed 1 s [] (ascii name) t { s with mark := 0 } :=
    .part hpass hevents fun _ => rfl
  have hnext : (httpParserScanner uriRelaxed).next t 32 = (3, [.requestMethod]) :=
    of_decide_eq_true hexit
  refine hpart.trans (.byte hnext (by decide) rfl fun rest _ => ?_)
  have hname : charsToHttpMethod (ascii name) = m := methods_found (m, name) hm
  have hfound : charsToHttpMethod (ascii name ++ 32 :: rest) = m :=
    (charsToHttpMethod_append (ascii name) rest).trans hname
  have hvalid : m ≠ .invalidMethod := by
    rintro rfl
    have hvalid : ∀ x ∈ httpMethodMap, x.1 ≠ .invalidMethod := by decide
    exact hvalid _ hm rfl
  simp [RequestParser.acts, act, onRequestMethod, hfound, hvalid, bind, Except.bind, pure,
    Except.pure]

/-- A byte that ends a path, with the actions behind `request_path`. -/
structure EndsPath (uriRelaxed : Bool) (c : UInt8) (st' : Nat) (as : List RequestAction) :
    Prop where
  empty : (httpParserScanner uriRelaxed).next 3 c = (st', .mark :: .requestPath :: as)
  exits : ∀ t, pathExits (httpParserScanner uriRelaxed) t = true →
    (httpParserScanner uriRelaxed).next t c = (st', .requestPath :: as)
  ne_zero : st' ≠ 0
  quiet : as = [] ∨ as = [.requestUri]

theorem endsPath_query : EndsPath uriRelaxed 63 29 [] where
  empty := by cases uriRelaxed <;> decide
  exits t h := by
    simp only [pathExits, Bool.and_eq_true, decide_eq_true_eq] at h
    exact h.2
  ne_zero := by decide
  quiet := Or.inl rfl

theorem endsPath_fragment : EndsPath uriRelaxed 35 20 [.requestUri] where
  empty := by cases uriRelaxed <;> decide
  exits t h := by
    simp only [pathExits, Bool.and_eq_true, decide_eq_true_eq] at h
    exact h.1.2
  ne_zero := by decide
  quiet := Or.inr rfl

theorem endsPath_blank : EndsPath uriRelaxed 32 4 [.requestUri] where
  empty := by cases uriRelaxed <;> decide
  exits t h := by
    simp only [pathExits, Bool.and_eq_true, decide_eq_true_eq] at h
    exact h.1.1
  ne_zero := by decide
  quiet := Or.inr rfl

/-- The path and the byte behind it. -/
theorem reads_requestPath {w : Bytes} {c : UInt8} {as : List RequestAction}
    (hc : EndsPath uriRelaxed c st' as) (hw : w ∈ relativePart.language)
    (hallowed : Allowed uriRelaxed w) :
    Reads uriRelaxed 3 s pre (w ++ [c]) st'
      { s with mark := pre.length, data := { s.data with path := w } } := by
  have hpath : ∀ t : RequestParser, t.mark = pre.length → ∀ rest : Bytes,
      (pre ++ w ++ [c] ++ rest).length < 2 ^ 63 →
      t.acts (pre ++ w ++ [c] ++ rest) ((.requestPath :: as).map fun a => ((pre ++ w).length, a)) =
        .ok { t with data := { t.data with path := w } } := by
    intro t ht rest hlen
    have hstr := stringAt_part ([c] ++ rest) (by simpa using hlen)
    rw [← List.append_assoc] at hstr
    rw [List.map_cons, RequestParser.acts, List.foldlM_cons]
    simp only [act, ht, hstr, bind, Except.bind, pure, Except.pure]
    rcases hc.quiet with rfl | rfl <;> rfl
  by_cases hw0 : w = []
  · subst hw0
    have hdone : (.mark :: .requestPath :: as).any (fun a => a = .done) = false := by
      rcases hc.quiet with rfl | rfl <;> rfl
    refine .byte hc.empty hc.ne_zero hdone fun rest hlen => ?_
    have := hpath { s with mark := pre.length } rfl rest (by simpa using hlen)
    rw [List.append_nil] at this
    exact this
  · obtain ⟨t, hpass, hevents, hexit⟩ := path_read hw hallowed hw0
    have hpart : Reads uriRelaxed 3 s pre w t { s with mark := pre.length } :=
      .part hpass hevents fun _ => rfl
    have hdone : (.requestPath :: as).any (fun a => a = .done) = false := by
      rcases hc.quiet with rfl | rfl <;> rfl
    exact hpart.trans (.byte (hc.exits t hexit) hc.ne_zero hdone fun rest hlen =>
      hpath _ rfl rest hlen)

/-- The query and the byte behind it. -/
theorem reads_queryString {w : Bytes} {c : UInt8} (hne : st' ≠ 0)
    (hexits : ∀ t, queryExits (httpParserScanner uriRelaxed) t = true →
      (httpParserScanner uriRelaxed).next t c = (st', [.queryString, .requestUri]))
    (hw : w ∈ RequestGrammar.query.language) (hallowed : Allowed uriRelaxed w) (hw0 : w ≠ []) :
    Reads uriRelaxed 29 s pre (w ++ [c]) st'
      { s with queryStart := pre.length, data := { s.data with query := w } } := by
  obtain ⟨t, hpass, hevents, hexit⟩ := query_read hw hallowed hw0
  have hpart : Reads uriRelaxed 29 s pre w t { s with queryStart := pre.length } :=
    .part hpass hevents fun _ => rfl
  refine hpart.trans (.byte (hexits t hexit) hne rfl fun rest hlen => ?_)
  have hstr := stringAt_part ([c] ++ rest) (by simpa using hlen)
  rw [← List.append_assoc] at hstr
  rw [List.map_cons, RequestParser.acts, List.foldlM_cons]
  simp only [act, hstr, bind, Except.bind, pure, Except.pure]
  rfl

/-- The fragment and the blank behind it. -/
theorem reads_fragmentText {w : Bytes} (hw : w ∈ RequestGrammar.fragment.language)
    (hallowed : Allowed uriRelaxed w) (hw0 : w ≠ []) :
    Reads uriRelaxed 20 s pre (w ++ [32]) 4
      { s with mark := pre.length, data := { s.data with fragment := w } } := by
  obtain ⟨t, hpass, hevents, hexit⟩ := fragment_read hw hallowed hw0
  have hpart : Reads uriRelaxed 20 s pre w t { s with mark := pre.length } :=
    .part hpass hevents fun _ => rfl
  refine hpart.trans (.byte (of_decide_eq_true hexit) (by decide) rfl fun rest hlen => ?_)
  have hstr := stringAt_part ([32] ++ rest) (by simpa using hlen)
  rw [← List.append_assoc] at hstr
  rw [List.map_cons, RequestParser.acts, List.foldlM_cons]
  simp only [act, hstr, bind, Except.bind, pure, Except.pure]
  rfl

/-- What stands between the blanks of the request line. -/
def target (r : HttpRequest) : Bytes :=
  r.path ++ ((if r.query = [] then [] else ascii "?") ++ r.query) ++
    ((if r.fragment = [] then [] else ascii "#") ++ r.fragment)

/-- The target and the blank behind it; a parser that has not read a query or a fragment has
    none. -/
theorem reads_target (pre : Bytes) {r : HttpRequest} (h : r.Writable uriRelaxed)
    (hquery : s.data.query = []) (hfragment : s.data.fragment = []) :
    ∃ s', Reads uriRelaxed 3 s pre (target r ++ [32]) 4 s' ∧ s'.error = s.error ∧
      s'.data = { s.data with path := r.path, query := r.query, fragment := r.fragment } := by
  obtain ⟨hpath, hallowed⟩ := h.path
  obtain ⟨hq, hqallowed⟩ := h.query
  obtain ⟨hf, hfallowed⟩ := h.fragment
  have hblank : ∀ t, queryExits (httpParserScanner uriRelaxed) t = true →
      (httpParserScanner uriRelaxed).next t 32 = (4, [.queryString, .requestUri]) := by
    intro t ht
    simp only [queryExits, Bool.and_eq_true, decide_eq_true_eq] at ht
    exact ht.1
  have hhash : ∀ t, queryExits (httpParserScanner uriRelaxed) t = true →
      (httpParserScanner uriRelaxed).next t 35 = (20, [.queryString, .requestUri]) := by
    intro t ht
    simp only [queryExits, Bool.and_eq_true, decide_eq_true_eq] at ht
    exact ht.2
  have h1 : ∀ c st' as, EndsPath uriRelaxed c st' as →
      Reads uriRelaxed 3 s pre (r.path ++ [c]) st'
        { s with mark := pre.length, data := { s.data with path := r.path } } :=
    fun _ _ _ hc => reads_requestPath hc hpath hallowed
  by_cases hq0 : r.query = []
  · by_cases hf0 : r.fragment = []
    · have htext : target r ++ [32] = r.path ++ [32] := by simp [target, hq0, hf0]
      rw [htext]
      exact ⟨_, h1 _ _ _ endsPath_blank, rfl, by simp [hq0, hf0, hquery, hfragment]⟩
    · have htext : target r ++ [32] = r.path ++ [35] ++ (r.fragment ++ [32]) := by
        simp [target, hq0, hf0, ascii]
      rw [htext]
      exact ⟨_, (h1 _ _ _ endsPath_fragment).trans (reads_fragmentText hf hfallowed hf0), rfl,
        by simp [hq0, hquery]⟩
  · by_cases hf0 : r.fragment = []
    · have htext : target r ++ [32] = r.path ++ [63] ++ (r.query ++ [32]) := by
        simp [target, hq0, hf0, ascii]
      rw [htext]
      exact ⟨_, (h1 _ _ _ endsPath_query).trans
        (reads_queryString (by decide) hblank hq hqallowed hq0), rfl, by simp [hf0, hfragment]⟩
    · have htext : target r ++ [32] =
          r.path ++ [63] ++ (r.query ++ [35] ++ (r.fragment ++ [32])) := by
        simp [target, hq0, hf0, ascii]
      rw [htext]
      exact ⟨_, (h1 _ _ _ endsPath_query).trans
        ((reads_queryString (by decide) hhash hq hqallowed hq0).trans
          (reads_fragmentText hf hfallowed hf0)), rfl, rfl⟩

/-- The version, and the end of the request line. -/
theorem reads_version {v : UInt8} (hv : v = 0x10 ∨ v = 0x11) :
    Reads uriRelaxed 4 s pre (ascii "HTTP/" ++ versionText v ++ crlf) 13
      { s with mark := pre.length, data := { s.data with version := v } } := by
  have hscan : (httpParserScanner uriRelaxed).passes 4 (ascii "HTTP/" ++ versionText v ++ crlf) =
      some 13 ∧ ((httpParserScanner uriRelaxed).scan 4 0
        (ascii "HTTP/" ++ versionText v ++ crlf)).events = [(0, .mark), (8, .httpVersion)] := by
    rcases hv with rfl | rfl <;> cases uriRelaxed <;> decide
  refine ⟨hscan.1, fun rest hlen => ?_⟩
  rw [Scanner.scan_shift, hscan.2]
  simp only [List.length_append] at hlen
  have hsub : subSize (pre.length + 8) pre.length = 8 := by
    rw [subSize_of_le (by omega) (by unfold sizeMod; omega)]
    omega
  have hcmp : ∀ lit : Bytes, strncmpEq (pre ++ (ascii "HTTP/" ++ versionText v ++ crlf) ++ rest)
      pre.length lit 8 = strncmpEq (ascii "HTTP/" ++ versionText v ++ crlf) 0 lit 8 := by
    intro lit
    have hlong : 8 ≤ (ascii "HTTP/" ++ versionText v ++ crlf).length := by
      rcases hv with rfl | rfl <;> decide
    rw [strncmpEq, strncmpEq, List.append_assoc, List.drop_left, List.drop_zero,
      List.take_append_of_le_length (by omega)]
  simp only [List.map_cons, List.map_nil, RequestParser.acts, List.foldlM_cons, List.foldlM_nil,
    act, Nat.add_zero, hsub, onRequestVersion, hcmp, bind, Except.bind, pure, Except.pure]
  rcases hv with rfl | rfl <;> rfl

/-! ## Headers -/

/-- The value of a header, and the line end behind it. -/
theorem reads_value {w : Bytes} (hw : w ∈ fieldValue.language) (hlen : s.fieldLen ≠ 0)
    {key : Bytes} (hkey : ∀ rest, (pre ++ rest).length < 2 ^ 63 →
      stringAt (pre ++ rest) s.fieldStart s.fieldLen = .ok key) :
    Reads uriRelaxed 15 s pre (w ++ [13]) 17
      { s with
        mark := pre.length
        data := { s.data with headers := s.data.headers.set key w } } := by
  have hvalue : ∀ t : RequestParser, t.mark = pre.length → t.fieldStart = s.fieldStart →
      t.fieldLen = s.fieldLen → ∀ rest : Bytes, (pre ++ w ++ [13] ++ rest).length < 2 ^ 63 →
      t.acts (pre ++ w ++ [13] ++ rest) [((pre ++ w).length, .writeValue)] =
        .ok { t with data := { t.data with headers := t.data.headers.set key w } } := by
    intro t ht hstart hlength rest hsize
    have hstr := stringAt_part ([13] ++ rest) (by simpa using hsize)
    have hname := hkey (w ++ [13] ++ rest) (by simpa using hsize)
    simp only [← List.append_assoc] at hstr hname
    simp only [RequestParser.acts, List.foldlM_cons, List.foldlM_nil, act, onRequestHttpField,
      hlength, if_neg hlen, hstart, ht, hname, hstr, bind, Except.bind, pure, Except.pure]
  by_cases hw0 : w = []
  · subst hw0
    have hnext : (httpParserScanner uriRelaxed).next 15 13 = (17, [.startValue, .writeValue]) := by
      cases uriRelaxed <;> decide
    refine .byte hnext (by decide) rfl fun rest hsize => ?_
    have := hvalue { s with mark := pre.length } rfl rfl rfl rest (by simpa using hsize)
    rw [List.append_nil] at this
    exact this
  · obtain ⟨t, hpass, hevents, hexit⟩ := fieldValue_read uriRelaxed hw hw0
    have hpart : Reads uriRelaxed 15 s pre w t { s with mark := pre.length } :=
      .part hpass hevents fun _ => rfl
    exact hpart.trans (.byte (of_decide_eq_true hexit) (by decide) rfl fun rest hsize =>
      hvalue { s with mark := pre.length } rfl rfl rfl rest hsize)

/-- A header line sets its header. -/
theorem reads_headerLine (uriRelaxed : Bool) (s : RequestParser) (pre : Bytes)
    {e : Bytes × Bytes} (hname : e.1 ∈ fieldName.language) (hvalue : e.2 ∈ fieldValue.language) :
    ∃ s', Reads uriRelaxed 13 s pre (headerLine e) 13 s' ∧ s'.error = s.error ∧
      s'.data = { s.data with headers := s.data.headers.set e.1 e.2 } := by
  have hne : e.1 ≠ [] := by
    intro hnil
    rw [hnil] at hname
    exact absurd hname (by decide)
  obtain ⟨t, hpass, hevents, hexit⟩ := fieldName_read uriRelaxed hname hne
  have h1 : Reads uriRelaxed 13 s pre e.1 t { s with fieldStart := pre.length } :=
    .part hpass hevents fun _ => rfl
  have h2 : Reads uriRelaxed t { s with fieldStart := pre.length } (pre ++ e.1) [58] 15
      { s with fieldStart := pre.length, fieldLen := e.1.length } := by
    refine .byte (of_decide_eq_true hexit) (by decide) rfl fun rest hsize => ?_
    simp only [List.length_append] at hsize
    have hsub : subSize (pre ++ e.1).length pre.length = e.1.length := by
      rw [List.length_append, subSize_of_le (by omega) (by unfold sizeMod; omega)]
      omega
    simp only [List.map_cons, List.map_nil, RequestParser.acts, List.foldlM_cons,
      List.foldlM_nil, act, hsub, bind, Except.bind, pure, Except.pure]
  have h3 : Reads uriRelaxed 15 { s with fieldStart := pre.length, fieldLen := e.1.length }
      (pre ++ e.1 ++ [58]) [32] 15 { s with
        fieldStart := pre.length
        fieldLen := e.1.length
        mark := (pre ++ e.1 ++ [58]).length } := by
    have hnext : (httpParserScanner uriRelaxed).next 15 32 = (15, [.startValue]) := by
      cases uriRelaxed <;> decide
    exact .byte hnext (by decide) rfl fun _ _ => rfl
  have hkey : ∀ rest, (pre ++ e.1 ++ [58] ++ [32] ++ rest).length < 2 ^ 63 →
      stringAt (pre ++ e.1 ++ [58] ++ [32] ++ rest) pre.length e.1.length = .ok e.1 := by
    intro rest hsize
    simp only [List.append_assoc, List.length_append] at hsize ⊢
    rw [stringAt, if_neg (by omega), if_neg (by simp only [List.length_append]; omega),
      List.drop_left, List.take_left]
  obtain ⟨t₄, h4, he4, hd4⟩ : ∃ t₄, Reads uriRelaxed 15 { s with
      fieldStart := pre.length
      fieldLen := e.1.length
      mark := (pre ++ e.1 ++ [58]).length } (pre ++ e.1 ++ [58] ++ [32]) (e.2 ++ [13]) 17 t₄ ∧
      t₄.error = s.error ∧ t₄.data = { s.data with headers := s.data.headers.set e.1 e.2 } := by
    have hlen : e.1.length ≠ 0 := fun hzero => hne (List.length_eq_zero_iff.mp hzero)
    refine ⟨_, reads_value hvalue hlen hkey, ?_, ?_⟩ <;> rfl
  have hnext : (httpParserScanner uriRelaxed).next 17 10 = (13, []) := by
    cases uriRelaxed <;> decide
  have htext : headerLine e = e.1 ++ ([58] ++ ([32] ++ (e.2 ++ [13] ++ [10]))) := by
    simp [headerLine, crlf, ascii]
  rw [htext]
  exact ⟨_, h1.trans (h2.trans (h3.trans (h4.trans
    (.byte hnext (by decide) rfl fun _ _ => rfl)))), he4, hd4⟩

/-- Header lines set their headers one after the other. -/
theorem reads_headerLines (uriRelaxed : Bool) (s : RequestParser) (pre : Bytes)
    {es : List (Bytes × Bytes)}
    (h : ∀ e ∈ es, e.1 ∈ fieldName.language ∧ e.2 ∈ fieldValue.language) :
    ∃ s', Reads uriRelaxed 13 s pre (es.flatMap headerLine) 13 s' ∧ s'.error = s.error ∧
      s'.data = { s.data with headers := s.data.headers.setAll es } := by
  induction es generalizing s pre with
  | nil => exact ⟨s, ⟨rfl, fun _ _ => rfl⟩, rfl, rfl⟩
  | cons e es ih =>
    rw [List.forall_mem_cons] at h
    obtain ⟨s₁, h₁, herror₁, hdata₁⟩ := reads_headerLine uriRelaxed s pre h.1.1 h.1.2
    obtain ⟨s₂, h₂, herror₂, hdata₂⟩ := ih s₁ (pre ++ headerLine e) h.2
    refine ⟨s₂, h₁.trans h₂, herror₂.trans herror₁, ?_⟩
    rw [hdata₂, hdata₁]
    rfl

theorem decimal_mem_fieldValue (n : Nat) : decimal n ∈ fieldValue.language := by
  have hdigits : ∀ b ∈ decimal n, 48 ≤ b.toNat ∧ b.toNat ≤ 57 := fun b hb => by
    have := digit_of_mem_decimal hb
    rwa [UInt8.le_iff_toNat_le, UInt8.le_iff_toNat_le] at this
  cases hd : decimal n with
  | nil => exact absurd hd (decimal_ne_nil n)
  | cons b w =>
    rw [hd, List.forall_mem_cons] at hdigits
    have hfirst : inRanges [(1, 8), (11, 12), (14, 31), (33, 126), (128, 255)] b = true := by
      simp [inRanges]
      omega
    refine Regex.cons_mem_language.mpr
      ⟨_, List.mem_append_right _ (List.mem_append_left _ (List.mem_singleton_self _)), hfirst, ?_⟩
    refine Regex.mem_star_set fun c hc => ?_
    have := hdigits.2 c hc
    simp [inRanges]
    omega

/-! ## The head -/

/-- All header lines that are written. -/
def lines (r : HttpRequest) : List (Bytes × Bytes) :=
  connectionEntry r.close :: r.headers.written ++
    if r.body = [] then [] else [contentLengthEntry r.body]

theorem lines_read {r : HttpRequest} (h : r.Writable uriRelaxed) :
    ∀ e ∈ lines r, e.1 ∈ fieldName.language ∧ e.2 ∈ fieldValue.language := by
  intro e he
  rw [lines, List.cons_append, List.mem_cons, List.mem_append] at he
  rcases he with rfl | he | he
  · cases hclose : r.close <;> simp only [connectionEntry] <;> decide
  · have := h.headers e (HeaderMap.mem_written.mp he).1
    exact ⟨this.1, this.2.1⟩
  · split at he
    · cases he
    · rw [List.mem_singleton.mp he]
      exact ⟨by simp only [contentLengthEntry]; decide, decimal_mem_fieldValue _⟩

theorem pairwise_lines {r : HttpRequest} (h : r.Writable uriRelaxed) :
    (lines r).Pairwise fun a b => sameKey a.1 b.1 = false := by
  have hwritten : r.headers.written.Pairwise fun a b => sameKey a.1 b.1 = false := by
    refine List.Pairwise.filter _ ?_
    refine (r.headers.perm_entries.pairwise_iff ?_).mpr h.keys
    exact fun {a b} hab => (sameKey_comm _ _).trans hab
  have hlast : sameKey (ascii "connection") (ascii "content-length") = false := by decide
  rw [lines, List.cons_append, List.pairwise_cons, List.pairwise_append]
  refine ⟨fun e he => ?_, hwritten, ?_, fun a ha b hb => ?_⟩
  · rcases List.mem_append.mp he with he | he
    · rw [sameKey_comm]
      exact (HeaderMap.mem_written.mp he).2
    · split at he
      · cases he
      · rw [List.mem_singleton.mp he]
        exact hlast
  · split <;> simp
  · split at hb
    · cases hb
    · rw [List.mem_singleton.mp hb]
      exact (h.headers a (HeaderMap.mem_written.mp ha).1).2.2.2

theorem head_eq {r : HttpRequest} {name : String} (hname : httpMethodToString r.method = name) :
    r.head = ascii name ++ [32] ++ (target r ++ [32] ++ (ascii "HTTP/" ++ versionText r.version ++
      crlf ++ ((lines r).flatMap headerLine ++ crlf))) := by
  have hlast : headEnd r.body =
      (if r.body = [] then [] else [contentLengthEntry r.body]).flatMap
      headerLine ++ crlf := by
    rw [headEnd]
    split <;> simp
  have hblank : ascii " HTTP/" = [32] ++ ascii "HTTP/" := by decide
  have hspace : ascii " " = [32] := by decide
  rw [HttpRequest.head, HttpRequest.startLine, hname, hlast, hblank, hspace, lines, target]
  simp only [List.cons_append, List.flatMap_cons, List.flatMap_append, List.append_assoc,
    List.nil_append]

theorem next_blank (uriRelaxed : Bool) :
    (httpParserScanner uriRelaxed).next 13 13 = (18, [.startField]) ∧
    (httpParserScanner uriRelaxed).next 18 10 = (348, [.done]) := by
  cases uriRelaxed <;> decide

/-- The end of the blank line ends the head. -/
theorem Reads.finish {queryStart : Nat} {text : Bytes}
    (h : Reads uriRelaxed 1 (new queryStart uriRelaxed) [] text 18 s)
    (hlen : (text ++ [10]).length < 2 ^ 63) :
    (httpParserScanner uriRelaxed).Accepts 1 (text ++ [10]) ∧
      ∃ t, headParser queryStart uriRelaxed (text ++ [10]) = .ok t ∧ t.error = s.error ∧
        t.data = s.data := by
  obtain ⟨-, hend⟩ := next_blank uriRelaxed
  have hbreak : (httpParserScanner uriRelaxed).breaksOn 18 10 = true := by
    rw [Scanner.breaksOn, hend]
    rfl
  have hacts := h.acts [10] (by simpa using hlen)
  rw [List.nil_append, List.length_nil] at hacts
  have hrun : headParser queryStart uriRelaxed (text ++ [10]) =
      s.act (text ++ [10]) (0 + text.length) .done := by
    rw [headParser, show (new queryStart uriRelaxed).cs = 1 from rfl,
      Scanner.scan_append h.passes, acts_append, hacts]
    simp only [Scanner.scan, hbreak, if_true, hend]
    rfl
  refine ⟨⟨_, _, _, rfl, h.passes, hbreak⟩, _, hrun.trans rfl, ?_, ?_⟩ <;> rfl

/-- The head is accepted, and the parser behind it has the parts of the request. -/
theorem head_parsed {r : HttpRequest} (h : r.Writable uriRelaxed) (queryStart : Nat)
    (hlen : r.head.length < 2 ^ 63) :
    (httpParserScanner uriRelaxed).Accepts 1 r.head ∧
      ∃ t, headParser queryStart uriRelaxed r.head = .ok t ∧ t.error = 0 ∧
        t.data = {
          method := r.method
          version := r.version
          path := r.path
          query := r.query
          fragment := r.fragment
          headers := HeaderMap.setAll [] (lines r) } := by
  obtain ⟨name, hname, hmap⟩ : ∃ name, httpMethodToString r.method = name ∧
      (r.method, name) ∈ httpMethodMap := by
    refine ⟨_, rfl, ?_⟩
    have hm := h.method
    cases hmethod : r.method <;> first | exact absurd hmethod hm | decide
  obtain ⟨s₁, h1, he1, hd1⟩ : ∃ s₁, Reads uriRelaxed 1 (new queryStart uriRelaxed) []
      (ascii name ++ [32]) 3 s₁ ∧ s₁.error = 0 ∧ s₁.data = { method := r.method } :=
    ⟨_, reads_requestMethod hmap h.notSearch, rfl, rfl⟩
  obtain ⟨s₂, h2, he2, hd2⟩ := reads_target ([] ++ (ascii name ++ [32])) h
    (by rw [hd1]) (by rw [hd1])
  obtain ⟨s₃, h3, he3, hd3⟩ : ∃ s₃, Reads uriRelaxed 4 s₂
      ([] ++ (ascii name ++ [32]) ++ (target r ++ [32]))
      (ascii "HTTP/" ++ versionText r.version ++ crlf) 13 s₃ ∧ s₃.error = s₂.error ∧
      s₃.data = { s₂.data with version := r.version } := by
    refine ⟨_, reads_version h.version, ?_, ?_⟩ <;> rfl
  obtain ⟨s₄, h4, he4, hd4⟩ := reads_headerLines uriRelaxed s₃ ([] ++ (ascii name ++ [32]) ++
    (target r ++ [32]) ++ (ascii "HTTP/" ++ versionText r.version ++ crlf)) (lines_read h)
  obtain ⟨s₅, h5, he5, hd5⟩ : ∃ s₅, Reads uriRelaxed 13 s₄ ([] ++ (ascii name ++ [32]) ++
      (target r ++ [32]) ++ (ascii "HTTP/" ++ versionText r.version ++ crlf) ++
      (lines r).flatMap headerLine) [13] 18 s₅ ∧ s₅.error = s₄.error ∧ s₅.data = s₄.data := by
    refine ⟨_, .byte (next_blank uriRelaxed).1 (by decide) rfl fun _ _ => rfl, ?_, ?_⟩ <;> rfl
  have hall := h1.trans (h2.trans (h3.trans (h4.trans h5)))
  have hhead : r.head = ascii name ++ [32] ++ (target r ++ [32] ++
      (ascii "HTTP/" ++ versionText r.version ++ crlf ++
        ((lines r).flatMap headerLine ++ [13]))) ++ [10] := by
    rw [head_eq hname]
    simp [crlf]
  rw [hhead] at hlen ⊢
  obtain ⟨haccepts, t, ht, hte, htd⟩ := hall.finish hlen
  refine ⟨haccepts, t, ht, ?_, ?_⟩
  · exact hte.trans (he5.trans (he4.trans (he3.trans (he2.trans he1))))
  · rw [htd, hd5, hd4, hd3, hd2, hd1]

/-- The parser has the parts of the request, and the length that it gives to what stands behind
    the head is that of the body. -/
structure Recovers (lexicalCast : Bytes → Option UInt64) (u : RequestParser) (behind : Bytes)
    (r : HttpRequest) : Prop where
  noError : u.hasError = false
  finished : u.isFinished = true
  method : u.data.method = r.method
  version : u.data.version = r.version
  path : u.data.path = r.path
  query : u.data.query = r.query
  fragment : u.data.fragment = r.fragment
  headers : ∀ e ∈ r.headers, u.data.headers.get e.1 = some e.2
  body : behind.take (u.getContentLength lexicalCast).toNat = r.body

theorem getContentLength_lines {lexicalCast : Bytes → Option UInt64} {r : HttpRequest}
    {u : RequestParser} (h : r.Writable uriRelaxed) (hsize : r.body.length < 2 ^ 64)
    (hcast : ∀ n, n < 2 ^ 64 → lexicalCast (decimal n) = some (UInt64.ofNat n))
    (hu : u.data.headers = HeaderMap.setAll [] (lines r)) :
    (u.getContentLength lexicalCast).toNat = r.body.length := by
  rw [getContentLength, HeaderMap.getAs, hu]
  by_cases hbody : r.body = []
  · have hnone : HeaderMap.get (HeaderMap.setAll [] (lines r)) (ascii "content-length") = none := by
      rw [HeaderMap.get_setAll_of_not]
      · rfl
      · intro e he
        rw [lines, hbody, if_pos rfl, List.append_nil, List.mem_cons] at he
        rcases he with rfl | he
        · exact (by decide : sameKey (ascii "connection") (ascii "content-length") = false)
        · exact (h.headers e (HeaderMap.mem_written.mp he).1).2.2.2
    rw [hnone, hbody]
    rfl
  · have hmem : contentLengthEntry r.body ∈ lines r := by
      rw [lines, if_neg hbody]
      simp
    have hget := HeaderMap.get_setAll (m := []) (pairwise_lines h) hmem
    rw [contentLengthEntry] at hget
    rw [hget]
    dsimp only
    rw [hcast _ hsize, Option.getD_some, UInt64.toNat_ofNat', Nat.mod_eq_of_lt hsize]

end RequestParser

open RequestParser

/-- What `dump` writes of a request is parsed back by one call that has the whole head in its
    buffer. -/
theorem request_round_trip {uriRelaxed : Bool} {r : HttpRequest}
    {lexicalCast : Bytes → Option UInt64} (h : r.Writable uriRelaxed)
    (hsize : r.dump.length < 2 ^ 63)
    (hcast : ∀ n, n < 2 ^ 64 → lexicalCast (decimal n) = some (UInt64.ofNat n))
    (queryStart : Nat) (garbage : Bytes) :
    ∀ len, r.head.length ≤ len → len ≤ r.dump.length → len < 2 ^ 31 → ∃ u mem,
      (new queryStart uriRelaxed).execute (r.dump ++ garbage) len =
        .ok (u, mem, r.head.length) ∧
      Recovers lexicalCast u (r.dump.drop r.head.length) r := by
  have hdump : r.dump.length = r.head.length + r.body.length := by
    rw [HttpRequest.dump, List.length_append]
  obtain ⟨haccepts, t, ht, herror, hdata⟩ := head_parsed h queryStart (by omega)
  intro len hle hlen hfits
  obtain ⟨k, rfl⟩ := Nat.exists_eq_add_of_le hle
  have hbody : r.dump ++ garbage = r.head ++ r.body.take k ++ (r.body.drop k ++ garbage) := by
    rw [HttpRequest.dump, List.append_assoc r.head (r.body.take k), ← List.append_assoc _ _ garbage,
      List.take_append_drop, List.append_assoc]
  have hk : (r.body.take k).length = k := by
    rw [List.length_take]
    omega
  obtain ⟨u, hu, hudata, huerror, hucs, hurelaxed⟩ :=
    execute_head (r.body.take k) (r.body.drop k ++ garbage) (by omega) haccepts ht
  rw [hk, ← hbody] at hu
  refine ⟨u, _, hu, ?_⟩
  have hparts := hudata.trans hdata
  have hlength := getContentLength_lines (u := u) h (by omega) hcast (by rw [hparts])
  refine ⟨?_, ?_, by rw [hparts], by rw [hparts], by rw [hparts], by rw [hparts], by rw [hparts],
    fun e he => ?_, ?_⟩
  · simp only [hasError, huerror, herror, decide_eq_false_iff_not]
    omega
  · simp only [isFinished, decide_eq_true_eq]
    exact Or.inr hucs
  · rw [hparts]
    refine HeaderMap.get_setAll (pairwise_lines h) ?_
    rw [lines]
    exact List.mem_append_left _
      (List.mem_cons_of_mem _ (HeaderMap.mem_written.mpr ⟨he, (h.headers e he).2.2.1⟩))
  · rw [hlength, HttpRequest.dump, List.drop_left, List.take_length]

/-- A request with all its parts. -/
def exampleRequest : HttpRequest where
  method := .post
  version := 0x10
  path := ascii "//[::1]:80/a%20b"
  query := ascii "c=d"
  fragment := ascii "e"
  body := ascii "hi"
  headers := [(ascii "Host", ascii "f"), (ascii "X-Empty", [])]

theorem exampleRequest_writable : exampleRequest.Writable false where
  method := by decide
  notSearch := by decide
  version := Or.inl rfl
  path := ⟨by decide, Or.inr (by decide +kernel)⟩
  query := ⟨by decide, Or.inr (by decide +kernel)⟩
  fragment := ⟨by decide, Or.inr (by decide +kernel)⟩
  keys := by decide
  headers := by decide

theorem request_round_trip_post :
    ∃ u mem, (new 7 false).execute (exampleRequest.dump ++ [1, 2])
        (exampleRequest.head.length + 1) = .ok (u, mem, exampleRequest.head.length) ∧
      Recovers decimalCast u (exampleRequest.dump.drop exampleRequest.head.length)
        exampleRequest :=
  request_round_trip exampleRequest_writable (by decide)
    (fun _ hn => decimalCast_decimal hn) 7 [1, 2] _ (by decide) (by decide) (by decide)

/-- The parser behind one call with all that is written of a request. -/
def parsed (r : HttpRequest) : Except Fault RequestParser :=
  ((new 0 false).execute r.dump r.dump.length).map Prod.fst

/-- A path is a path of the grammar and still not read back: what stands before a colon in its
    first segment is taken for a scheme, and what stands between two slashes and a third for an
    authority.  A name that begins with a line end ends the head, and the grammar of methods has
    no hyphen. -/
theorem request_not_recovered :
    (ascii "a:b" ∈ RequestGrammar.path.language ∧
      (parsed { path := ascii "a:b" }).map (fun u => u.data.path) = .ok (ascii "b")) ∧
    (ascii "//a:b" ∈ RequestGrammar.path.language ∧
      (parsed { path := ascii "//a:b" }).map (fun u => u.hasError) = .ok true) ∧
    (parsed { headers := [(ascii "\na", ascii "b")] }).map
      (fun u => u.data.headers.get (ascii "\na")) = .ok none ∧
    (parsed { method := .msearch }).map (fun u => u.hasError) = .ok true := by
  decide

end CppServerFramework.HTTP

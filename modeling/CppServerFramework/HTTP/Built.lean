import CppServerFramework.HTTP.RequestParserProps
import CppServerFramework.HTTP.ResponseParserProps

/-!
# Requests and responses as they are built

A request or a response is new or comes from a parser, and then goes through its setters.  What is
written in its first line has no line end: a parser that has read one gives no more texts for it.
-/

namespace CppServerFramework.HTTP
open CInt

/-- A parser behind any calls on any buffers. -/
inductive RequestParser.Reached : RequestParser → Prop
  | new (queryStart : Nat) (uriRelaxed : Bool) : Reached (new queryStart uriRelaxed)
  | execute {s t : RequestParser} {mem mem' : Bytes} {len n : Nat} (hs : Reached s)
      (hmem : mem.length < 2 ^ 63) (h : s.execute mem len = .ok (t, mem', n)) : Reached t

inductive ResponseParser.Reached : ResponseParser → Prop
  | new : Reached new
  | execute {s t : ResponseParser} {mem mem' : Bytes} {len n : Nat} {chunk : Bool}
      (hs : Reached s) (hmem : mem.length < 2 ^ 63)
      (h : s.execute mem len chunk = .ok (t, mem', n)) : Reached t

/-- The requests that are new or come from a parser, and what the setters make of them. -/
inductive HttpRequest.Built : HttpRequest → Prop
  | new (version : UInt8) (close : Bool) : Built { version := version, close := close }
  | parsed {s : RequestParser} (hs : s.Reached) : Built s.data
  | setHeader {r : HttpRequest} (hr : Built r) (key val : Bytes) : Built (r.setHeader key val)
  | delHeader {r : HttpRequest} (hr : Built r) (key : Bytes) : Built (r.delHeader key)
  | setBody {r : HttpRequest} (hr : Built r) (body : Bytes) : Built (r.setBody body)
  | setClose {r : HttpRequest} (hr : Built r) (close : Bool) : Built (r.setClose close)

inductive HttpResponse.Built : HttpResponse → Prop
  | new (version : UInt8) (close : Bool) : Built { version := version, close := close }
  | parsed {s : ResponseParser} (hs : s.Reached) : Built s.data
  | setHeader {r : HttpResponse} (hr : Built r) (key val : Bytes) : Built (r.setHeader key val)
  | delHeader {r : HttpResponse} (hr : Built r) (key : Bytes) : Built (r.delHeader key)
  | setBody {r : HttpResponse} (hr : Built r) (body : Bytes) : Built (r.setBody body)
  | setClose {r : HttpResponse} (hr : Built r) (close : Bool) : Built (r.setClose close)

/-- A text that is read up to position `p` lies in front of `p`. -/
theorem mem_of_stringAt {mem v : Bytes} {at' p : Nat} (hmem : mem.length < 2 ^ 63)
    (h : stringAt mem at' (subSize p at') = .ok v) {b : UInt8} (hb : b ∈ v) :
    ∃ i < p, mem[i]? = some b := by
  rw [stringAt] at h
  split at h
  · cases h
  · rename_i hlong
    split at h
    · cases h
    · rename_i hin
      cases h
      obtain ⟨i, hi, hget⟩ := List.getElem_of_mem hb
      rw [List.length_take, List.length_drop] at hi
      refine ⟨at' + i, ?_, ?_⟩
      · have hle : at' ≤ p ∨ subSize p at' = p + (2 ^ 64 - at') := by
          unfold subSize sizeMod at *
          omega
        rcases hle with hle | hsub
        · have hsub : subSize p at' ≤ p - at' ∨ 2 ^ 64 ≤ p := by
            unfold subSize sizeMod at *
            omega
          omega
        · omega
      · rw [← hget, List.getElem_take, List.getElem_drop, List.getElem?_eq_getElem]

theorem getElem?_of_take {mem : Bytes} {len q i : Nat} {b : UInt8} (hq : q < (mem.take len).length)
    (hi : i < q) (h : (mem.take len)[i]? ≠ some b) : mem[i]? ≠ some b := by
  rw [List.length_take] at hq
  rwa [List.getElem?_take_of_lt (by omega)] at h

/-- What a row says of its transitions holds of the one that is taken. -/
theorem next_of_row {α : Type} {edges others : List (Edge α)} {dflt next : Nat × List α}
    {b : UInt8} {stays : Nat × List α → Bool} {later : Nat → Bool}
    (hrow : ((edges.all fun e => stays (e.target, e.actions) &&
      (!e.covers 10 || later e.target)) && stays dflt &&
        (others.any (·.covers 10) || later dflt.1)) = true)
    (hnext : (∃ e ∈ edges, e.covers b = true ∧ next = (e.target, e.actions)) ∨
      (∀ e ∈ others, e.covers b = false) ∧ next = dflt) :
    stays next = true ∧ (b = 10 → later next.1 = true) := by
  simp only [Bool.and_eq_true, List.all_eq_true] at hrow
  obtain ⟨⟨hedges, hdflt⟩, hline⟩ := hrow
  rcases hnext with ⟨e, he, hcov, rfl⟩ | ⟨hnone, rfl⟩
  · obtain ⟨hstays, hten⟩ := hedges e he
    refine ⟨hstays, ?_⟩
    rintro rfl
    simpa [hcov] using hten
  · refine ⟨hdflt, ?_⟩
    rintro rfl
    rw [Bool.or_eq_true, List.any_eq_true] at hline
    refine hline.resolve_left ?_
    rintro ⟨e, he, hcov⟩
    rw [hnone e he] at hcov
    cases hcov

/-- The request line has no line end inside of it. -/
def HttpRequest.OneLine (r : HttpRequest) : Prop := 10 ∉ r.path ∧ 10 ∉ r.query ∧ 10 ∉ r.fragment

namespace RequestParser

/-- The states behind the first line of a request, and those behind the name of another kind of
    message. -/
def later (s : Nat) : Bool := s = 0 || (13 ≤ s && s ≤ 18) || 348 ≤ s || s = 196 || s = 197 ||
  s = 200 || s = 201

def givesText (a : RequestAction) : Bool := a = .requestPath || a = .queryString || a = .fragment

/-- Behind the first line a transition stays there and gives no text. -/
def staysLater (s : Nat) (x : Nat × List RequestAction) : Bool :=
  !later s || later x.1 && !x.2.any givesText

theorem staysLater_iff {s : Nat} {x : Nat × List RequestAction} :
    staysLater s x = true ↔ (later s = true → later x.1 = true ∧ x.2.any givesText = false) := by
  rw [staysLater]
  cases later s <;> simp

/-- A line end leads behind the first line. -/
def rowLater (r : RequestRow) : Bool :=
  (r.toRow true).edges.all (fun e => staysLater r.state (e.target, e.actions) &&
    (!e.covers 10 || later e.target)) &&
    staysLater r.state r.default && (r.edges.any (·.covers 10) || later r.default.1)

theorem rows_later : RequestRow.rows.all rowLater = true := by decide +kernel

theorem next_later (uriRelaxed : Bool) (s : Nat) (b : UInt8) :
    staysLater s ((httpParserScanner uriRelaxed).next s b) = true ∧
      (b = 10 → later ((httpParserScanner uriRelaxed).next s b).1 = true) := by
  rcases next_row uriRelaxed s b with ⟨r, hr, rfl, hnext⟩ | hnext
  · exact next_of_row (List.all_eq_true.mp rows_later r hr) hnext
  · rw [hnext]
    exact ⟨by simp [staysLater, later], fun _ => by simp [later]⟩

variable {mem mem' : Bytes} {p len n : Nat} {s t : RequestParser}

theorem act_oneLine {a : RequestAction} (hmem : mem.length < 2 ^ 63) (hs : s.data.OneLine)
    (hlf : givesText a = true → ∀ i < p, mem[i]? ≠ some 10) (h : s.act mem p a = .ok t) :
    t.data.OneLine := by
  have hnone : ∀ {at' v}, givesText a = true → stringAt mem at' (subSize p at') = .ok v →
      10 ∉ v := by
    intro at' v hgives hv hmem10
    obtain ⟨i, hi, hget⟩ := mem_of_stringAt hmem hv hmem10
    exact hlf hgives i hi hget
  cases a with
  | mark | startValue | startField | writeField | requestUri | startQuery | done | xml | json =>
    cases h
    exact hs
  | requestMethod =>
    cases h
    simp only [onRequestMethod]
    split <;> exact hs
  | httpVersion =>
    cases h
    simp only [onRequestVersion]
    split
    · exact hs
    · split <;> exact hs
  | writeValue =>
    simp only [act, onRequestHttpField, bind, Except.bind, pure, Except.pure] at h
    split at h
    · cases h
      exact hs
    · split at h
      · cases h
      · split at h <;> cases h
        exact hs
  | fragment =>
    simp only [act, bind, Except.bind, pure, Except.pure] at h
    split at h <;> cases h
    rename_i v hv
    exact ⟨hs.1, hs.2.1, hnone rfl hv⟩
  | queryString =>
    simp only [act, bind, Except.bind, pure, Except.pure] at h
    split at h <;> cases h
    rename_i v hv
    exact ⟨hs.1, hnone rfl hv, hs.2.2⟩
  | requestPath =>
    simp only [act, bind, Except.bind, pure, Except.pure] at h
    split at h <;> cases h
    rename_i v hv
    exact ⟨hnone rfl hv, hs.2⟩

/-- Behind any call the request has one line: as long as the parser is in it, no line end has been
    read in this call, and the texts it gives begin and end there. -/
theorem execute_oneLine (hmem : mem.length < 2 ^ 63) (hs : s.data.OneLine)
    (h : s.execute mem len = .ok (t, mem', n)) : t.data.OneLine := by
  rw [execute, httpParserExecute] at h
  simp only [bind, Except.bind, pure, Except.pure] at h
  split at h
  · cases h
  · rename_i v hv
    cases h
    split at hv
    · cases hv
      exact hs
    · split at hv
      · cases hv
      split at hv
      · cases hv
      · rename_i u hu
        obtain rfl := eq_of_ite_eq_ok hv
        change u.data.OneLine
        split at hu
        · cases hu
          exact hs
        · have hlater := fun st b => staysLater_iff.mp (next_later s.uriRelaxed st b).1
          have hline := fun st => (next_later s.uriRelaxed st 10).2 rfl
          refine Scanner.foldlM_scan_first (P := fun x => x.data.OneLine) _ _ hlater hline
            (fun q a x y hq hfirst hx hy => ?_) hs hu
          refine act_oneLine hmem hx (fun hgives i hi => ?_) hy
          exact getElem?_of_take hq hi (hfirst hgives i hi)

end RequestParser

/-- The status line has no line end inside of it. -/
def HttpResponse.OneLine (r : HttpResponse) : Prop := 10 ∉ r.reason

namespace ResponseParser

/-- The states behind the status line of a response or a chunk. -/
def later (s : Nat) : Bool := s = 0 || s = 3 || 20 ≤ s

/-- Behind the first line a transition stays there and gives no reason. -/
def staysLater (s : Nat) (x : Nat × List ResponseAction) : Bool :=
  !later s || later x.1 && !x.2.any (· = .reasonPhrase)

theorem staysLater_iff {s : Nat} {x : Nat × List ResponseAction} :
    staysLater s x = true ↔
      (later s = true → later x.1 = true ∧ x.2.any (· = .reasonPhrase) = false) := by
  rw [staysLater]
  cases later s <;> simp

/-- A line end leads behind the first line. -/
def rowLater (r : ResponseRow) : Bool :=
  r.edges.all (fun e => staysLater r.state (e.target, e.actions) &&
    (!e.covers 10 || later e.target)) &&
    staysLater r.state r.default && (r.edges.any (·.covers 10) || later r.default.1)

theorem rows_later : ResponseRow.rows.all rowLater = true := by decide

theorem next_later (s : Nat) (b : UInt8) :
    staysLater s (httpclientParserScanner.next s b) = true ∧
      (b = 10 → later (httpclientParserScanner.next s b).1 = true) := by
  rcases next_row s b with ⟨r, hr, rfl, hnext⟩ | hnext
  · exact next_of_row (List.all_eq_true.mp rows_later r hr) hnext
  · rw [hnext]
    exact ⟨by simp [staysLater, later], fun _ => by simp [later]⟩

variable {mem mem' : Bytes} {p len n : Nat} {chunk : Bool} {s t : ResponseParser}

theorem act_oneLine {a : ResponseAction} (hmem : mem.length < 2 ^ 63) (hs : s.data.OneLine)
    (hlf : a = .reasonPhrase → ∀ i < p, mem[i]? ≠ some 10) (h : s.act mem len p a = .ok t) :
    t.data.OneLine := by
  cases a with
  | mark | startValue | startField | writeField | writeContentLen | writeConnectionClose
  | statusCode | chunkSize | transChunked | done =>
    cases h
    exact hs
  | httpVersion =>
    cases h
    simp only [onResponseVersion]
    split
    · exact hs
    · split <;> exact hs
  | writeValue =>
    simp only [act, onResponseHttpField, bind, Except.bind, pure, Except.pure] at h
    split at h
    · cases h
      exact hs
    · split at h
      · cases h
      · split at h <;> cases h
        exact hs
  | reasonPhrase =>
    simp only [act, onResponseReason, bind, Except.bind, pure, Except.pure] at h
    split at h <;> cases h
    rename_i v hv
    intro hmem10
    obtain ⟨i, hi, hget⟩ := mem_of_stringAt hmem hv hmem10
    exact hlf rfl i hi hget

theorem execute_oneLine (hmem : mem.length < 2 ^ 63) (hs : s.data.OneLine)
    (h : s.execute mem len chunk = .ok (t, mem', n)) : t.data.OneLine := by
  obtain ⟨u, hexec⟩ := execute_iff.mp h
  have hs' : (if chunk then s.init else s).data.OneLine := by
    split <;> exact hs
  generalize (if chunk then s.init else s) = s' at hexec hs'
  rw [hexec.parser]
  have hclear : s'.clear.data.OneLine := hs'
  have hlater := fun st b => staysLater_iff.mp (next_later st b).1
  have hline := fun st => (next_later st 10).2 rfl
  refine Scanner.foldlM_scan_first (P := fun x => x.data.OneLine) _ _ hlater hline
    (fun q a x y hq hfirst hx hy => ?_) hclear hexec.acts
  refine act_oneLine hmem hx (fun hgives i hi => ?_) hy
  exact getElem?_of_take hq hi (hfirst (decide_eq_true hgives) i hi)

end ResponseParser

theorem RequestParser.Reached.oneLine {s : RequestParser} (h : s.Reached) : s.data.OneLine := by
  induction h with
  | new queryStart uriRelaxed =>
    change HttpRequest.OneLine {}
    simp only [HttpRequest.OneLine]
    decide
  | execute hs hmem h ih => exact RequestParser.execute_oneLine hmem ih h

theorem ResponseParser.Reached.oneLine {s : ResponseParser} (h : s.Reached) :
    s.data.OneLine := by
  induction h with
  | new => exact List.not_mem_nil
  | execute hs hmem h ih => exact ResponseParser.execute_oneLine hmem ih h

theorem HttpRequest.Built.oneLine {r : HttpRequest} (h : r.Built) : r.OneLine := by
  induction h with
  | new version close =>
    simp only [OneLine]
    decide
  | parsed hs => exact hs.oneLine
  | setHeader hr key val ih => exact ih
  | delHeader hr key ih => exact ih
  | setBody hr body ih => exact ih
  | setClose hr close ih => exact ih

theorem HttpResponse.Built.oneLine {r : HttpResponse} (h : r.Built) : r.OneLine := by
  induction h with
  | new version close => exact List.not_mem_nil
  | parsed hs => exact hs.oneLine
  | setHeader hr key val ih => exact ih
  | delHeader hr key ih => exact ih
  | setBody hr body ih => exact ih
  | setClose hr close ih => exact ih

end CppServerFramework.HTTP

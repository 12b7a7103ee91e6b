import CppServerFramework.HTTP.ConnectionProps
import CppServerFramework.HTTP.ResponseGrammar

/-!
# Receiving what a response writes

`HttpResponse::dump` (`http.cpp:206-233`) and then `HttpConnection::recvResponse`
(`http_connection.cpp:120-233`).  The parser reads the head line by line; the header of the
connection is never asked, so `m_close` stays what the constructor has set it to.
-/

namespace CppServerFramework.HTTP
open CInt Blocks ResponseAction ResponseGrammar

/-- What is written behind the status. -/
def HttpResponse.reasonText (r : HttpResponse) : Bytes :=
  if r.reason = [] then ascii (httpStatusToString r.status) else r.reason

/-- A response whose head can be parsed.  A header for the connection is not written, so it may
    have any value. -/
structure HttpResponse.Writable (r : HttpResponse) : Prop where
  version : r.version = 0x10 ∨ r.version = 0x11
  status : -2 ^ 31 ≤ r.status ∧ r.status < 2 ^ 31
  reason : r.reason = [] ∨ r.reason ∈ reasonPhrase.language
  keys : r.headers.Pairwise fun a b => sameKey a.1 b.1 = false
  headers : ∀ e ∈ r.headers, sameKey e.1 (ascii "connection") = true ∨
    e.1 ∈ fieldName.language ∧ e.2 ∈ fieldValue.language ∧ Plain e.1

/-- All header lines that are written. -/
def HttpResponse.lines (r : HttpResponse) : List (Bytes × Bytes) :=
  r.headers.written ++
    connectionEntry r.close :: if r.body = [] then [] else [contentLengthEntry r.body]

/-- What the other side makes of a response. -/
def HttpResponse.received (r : HttpResponse) : HttpResponse :=
  { r with close := true, reason := r.reasonText, headers := r.lines }

namespace ResponseParser

variable {mem pre seg a b rest key w : Bytes} {st st' st₁ : Nat} {s s' s₁ : ResponseParser}
  {before behind : List ResponseAction}

/-- Reading `seg` behind `pre` in the buffer `mem`. -/
structure Reads (mem : Bytes) (st : Nat) (s : ResponseParser) (pre seg : Bytes) (st' : Nat)
    (s' : ResponseParser) : Prop where
  passes : httpclientParserScanner.passes st seg = some st'
  acts : s.acts mem mem.length (httpclientParserScanner.scan st pre.length seg).events = .ok s'

theorem Reads.trans (h : Reads mem st s pre a st₁ s₁) (h' : Reads mem st₁ s₁ (pre ++ a) b st' s') :
    Reads mem st s pre (a ++ b) st' s' where
  passes := (Scanner.passes_append h.passes b).trans h'.passes
  acts := by
    have hsecond := h'.acts
    rw [List.length_append] at hsecond
    rw [Scanner.scan_append h.passes, acts_append, h.acts]
    exact hsecond

theorem Reads.of_scans {es : Nat → List (Nat × ResponseAction)}
    (h : httpclientParserScanner.Scans st seg st' es)
    (hacts : s.acts mem mem.length (es pre.length) = .ok s') : Reads mem st s pre seg st' s' :=
  ⟨h.passes, (h.events pre.length).symm ▸ hacts⟩

/-- A text of the buffer. -/
theorem stringAt_of_eq (hmem : mem = pre ++ w ++ rest) (hsize : mem.length < 2 ^ 63) :
    stringAt mem pre.length w.length = .ok w := by
  subst hmem
  simp only [List.append_assoc, List.length_append] at hsize ⊢
  rw [stringAt, if_neg (by omega), if_neg (by simp only [List.length_append]; omega),
    List.drop_left, List.take_left]

theorem subSize_behind {p n : Nat} (hsize : p + n < 2 ^ 63) : subSize (p + n) p = n := by
  rw [subSize_of_le (by omega) (by unfold sizeMod; omega), Nat.add_sub_cancel_left]

/-! ## The first line -/

theorem reads_version {v : UInt8} (hv : v = 0x10 ∨ v = 0x11)
    (hmem : mem = ascii "HTTP/" ++ versionText v ++ [32] ++ rest) :
    ∃ s', Reads mem 1 new [] (ascii "HTTP/" ++ versionText v ++ [32]) 16 s' ∧ s'.error = 0 ∧
      s'.chunked = false ∧ s'.data = { version := v } := by
  have hscans : httpclientParserScanner.passes 1 (ascii "HTTP/" ++ versionText v ++ [32]) =
      some 16 ∧ (httpclientParserScanner.scan 1 0
        (ascii "HTTP/" ++ versionText v ++ [32])).events = [(0, .mark), (8, .httpVersion)] := by
    rcases hv with rfl | rfl <;> decide
  have hcmp : ∀ lit : Bytes, strncmpEq mem 0 lit 8 =
      strncmpEq (ascii "HTTP/" ++ versionText v ++ [32]) 0 lit 8 := by
    intro lit
    have hlong : 8 ≤ (ascii "HTTP/" ++ versionText v ++ [32]).length := by
      rcases hv with rfl | rfl <;> decide
    rw [strncmpEq, strncmpEq, hmem, List.drop_zero, List.drop_zero,
      List.take_append_of_le_length (by omega)]
  have hsub : subSize 8 0 = 8 := by decide
  have hacts : ∃ s', new.acts mem mem.length [(0, .mark), (8, .httpVersion)] = .ok s' ∧
      s'.error = 0 ∧ s'.chunked = false ∧ s'.data = { version := v } := by
    simp only [acts, List.foldlM_cons, List.foldlM_nil, act, onResponseVersion, record, hsub, hcmp,
      bind, Except.bind, pure, Except.pure]
    rcases hv with rfl | rfl <;> exact ⟨_, rfl, rfl, rfl, rfl⟩
  obtain ⟨s', hs', hrest⟩ := hacts
  exact ⟨s', ⟨hscans.1, hscans.2.symm ▸ hs'⟩, hrest⟩

theorem digitOf_of_digit {b : UInt8} (hb : 48 ≤ b ∧ b ≤ 57) : digitOf b = b.toNat - 48 := by
  rw [digitOf, if_pos hb]

theorem atoi_decimal {n : Nat} (hn : n < 2 ^ 63) : atoi (decimal n) = intOfLong n := by
  have hdigits : ∀ b ∈ decimal n, 48 ≤ b ∧ b ≤ 57 := fun b hb => digit_of_mem_decimal hb
  have hall : (decimal n).takeWhile (fun b => digitOf b < 10) = decimal n := by
    refine List.takeWhile_eq_self_iff.mpr fun b hb => ?_
    have hle := (hdigits b hb).2
    rw [UInt8.le_iff_toNat_le] at hle
    have h57 : (57 : UInt8).toNat = 57 := rfl
    rw [digitOf_of_digit (hdigits b hb), decide_eq_true_eq]
    omega
  have hvalue : (decimal n).foldl (fun n b => 10 * n + digitOf b) 0 = n := by
    refine (List.foldl_ext _ _ _ fun m b hb => ?_).trans (decimalValue_decimal n)
    rw [digitOf_of_digit (hdigits b hb)]
  cases hd : decimal n with
  | nil => exact absurd hd (decimal_ne_nil n)
  | cons d w =>
    rw [hd] at hall hvalue hdigits
    rw [atoi_cons (hdigits d List.mem_cons_self), hall, hvalue]
    congr 1
    omega

/-- Every status that an `int` can hold comes back, also where it is written as another number. -/
theorem atoi_status {status : Int} (h : -2 ^ 31 ≤ status ∧ status < 2 ^ 31) :
    atoi (decimal (status % 2 ^ 32).toNat) = status := by
  rw [atoi_decimal (by omega), intOfLong, Int.toNat_of_nonneg (by omega)]
  rw [show ((2 : Int) ^ 32) = ((2 ^ 32 : Nat) : Int) from rfl, Int.emod_bmod]
  exact Int.bmod_eq_of_le (by omega) (by omega)

theorem reads_status {status : Int} (h : -2 ^ 31 ≤ status ∧ status < 2 ^ 31)
    (hmem : mem = pre ++ (decimal (status % 2 ^ 32).toNat ++ [32]) ++ rest) :
    ∃ s', Reads mem 16 s pre (decimal (status % 2 ^ 32).toNat ++ [32]) 18 s' ∧
      s'.error = s.error ∧ s'.chunked = s.chunked ∧ s'.data = { s.data with status := status } := by
  obtain ⟨t, hpass, hevents, hexit⟩ := statusCode_read (status % 2 ^ 32).toNat
  have hscans := Scanner.Scans.trans ⟨hpass, hevents⟩
    (.byte hexit (by decide) (by decide))
  have hvalue : atoi (mem.drop pre.length) = status := by
    refine Eq.trans ?_ (atoi_status h)
    rw [hmem, List.append_assoc, List.drop_left, List.append_assoc]
    have hdigit : ∀ b ∈ decimal (status % 2 ^ 32).toNat, 48 ≤ b ∧ b ≤ 57 :=
      fun b hb => digit_of_mem_decimal hb
    cases hd : decimal (status % 2 ^ 32).toNat with
    | nil => exact absurd hd (decimal_ne_nil _)
    | cons d w =>
      rw [hd] at hdigit
      exact atoi_stop (hdigit d List.mem_cons_self) w rest
  refine ⟨_, .of_scans hscans rfl, rfl, rfl, ?_⟩
  simp only [record, onResponseStatus, hvalue]

theorem reads_reason (hw : w ∈ reasonPhrase.language) (hmem : mem = pre ++ (w ++ crlf) ++ rest)
    (hsize : mem.length < 2 ^ 63) :
    ∃ s', Reads mem 18 s pre (w ++ crlf) 20 s' ∧ s'.error = s.error ∧ s'.chunked = s.chunked ∧
      s'.data = { s.data with reason := w } := by
  obtain ⟨t, hpass, hevents, hexit⟩ := reasonPhrase_read hw
  have hfeed : httpclientParserScanner.next 24 10 = (20, []) := by decide
  have hscans := Scanner.Scans.trans ⟨hpass, hevents⟩
    (.trans (.byte hexit (by decide) (by decide)) (.byte hfeed (by decide) (by decide)))
  have htext : stringAt mem pre.length w.length = .ok w := by
    rw [← List.append_assoc, List.append_assoc] at hmem
    exact stringAt_of_eq hmem hsize
  have hlen : pre.length + w.length < 2 ^ 63 := by
    rw [hmem] at hsize
    simp only [List.length_append] at hsize
    omega
  have hacts : ∃ s', s.acts mem mem.length
      [(pre.length, .mark), (pre.length + w.length, .reasonPhrase)] = .ok s' ∧
      s'.error = s.error ∧ s'.chunked = s.chunked ∧ s'.data = { s.data with reason := w } := by
    simp only [acts, List.foldlM_cons, List.foldlM_nil, act, onResponseReason,
      subSize_behind hlen, record, htext, bind, Except.bind, pure, Except.pure]
    exact ⟨_, rfl, rfl, rfl, rfl⟩
  obtain ⟨s', hs', hrest⟩ := hacts
  exact ⟨s', .of_scans hscans hs', hrest⟩

/-! ## Header lines -/

/-- The events of a header line, with what is done besides before its name and behind its
    value. -/
def lineEvents (before behind : List ResponseAction) (e : Bytes × Bytes) (p : Nat) :
    List (Nat × ResponseAction) :=
  before.map (fun a => (p, a)) ++ [(p, .startField), (p + e.1.length, .writeField),
    (p + e.1.length + 1, .startValue), (p + e.1.length + 2, .startValue)] ++
    behind.map (fun a => (p + e.1.length + 2 + e.2.length, a)) ++
    [(p + e.1.length + 2 + e.2.length, .writeValue)]

/-- A header line sets its header, whatever else is done there. -/
theorem reads_line {e : Bytes × Bytes}
    (hscans : httpclientParserScanner.Scans st (headerLine e) st' (lineEvents before behind e))
    (hbefore : before = [] ∨ before = [.writeConnectionClose])
    (hbehind : behind = [] ∨ behind = [.writeContentLen]) (hname : e.1 ≠ [])
    (hmem : mem = pre ++ headerLine e ++ rest) (hsize : mem.length < 2 ^ 63) :
    ∃ s', Reads mem st s pre (headerLine e) st' s' ∧ s'.error = s.error ∧
      s'.chunked = s.chunked ∧ s'.data = { s.data with headers := s.data.headers.set e.1 e.2 } := by
  have hlength : pre.length + e.1.length + 2 + e.2.length < 2 ^ 63 := by
    have hblank : (ascii ": ").length = 2 := by decide
    rw [hmem] at hsize
    simp only [headerLine, List.length_append, hblank] at hsize
    omega
  have hkey : stringAt mem pre.length e.1.length = .ok e.1 := by
    have hsplit : mem = pre ++ e.1 ++ (ascii ": " ++ e.2 ++ crlf ++ rest) := by
      simp only [hmem, headerLine, List.append_assoc]
    exact stringAt_of_eq hsplit hsize
  have hvalue : stringAt mem (pre.length + e.1.length + 2) e.2.length = .ok e.2 := by
    have hsplit : mem = (pre ++ e.1 ++ ascii ": ") ++ e.2 ++ (crlf ++ rest) := by
      simp only [hmem, headerLine, List.append_assoc]
    have hat : (pre ++ e.1 ++ ascii ": ").length = pre.length + e.1.length + 2 := by
      rw [List.length_append, List.length_append]
      rfl
    rw [← hat]
    exact stringAt_of_eq hsplit hsize
  have hpos : e.1.length ≠ 0 := fun hzero => hname (List.length_eq_zero_iff.mp hzero)
  have h1 : subSize (pre.length + e.1.length) pre.length = e.1.length :=
    subSize_behind (by omega)
  have h2 : subSize (pre.length + e.1.length + 2 + e.2.length) (pre.length + e.1.length + 2) =
      e.2.length := subSize_behind hlength
  have hacts : ∃ s', s.acts mem mem.length (lineEvents before behind e pre.length) = .ok s' ∧
      s'.error = s.error ∧ s'.chunked = s.chunked ∧
      s'.data = { s.data with headers := s.data.headers.set e.1 e.2 } := by
    rcases hbefore with rfl | rfl <;> rcases hbehind with rfl | rfl <;>
      simp only [lineEvents, List.map_cons, List.map_nil, List.append_nil, List.cons_append,
        List.nil_append, acts, List.foldlM_cons, List.foldlM_nil, act, onResponseHttpField, record,
        h1, h2, hkey, hvalue, if_neg hpos, bind, Except.bind, pure, Except.pure] <;>
      exact ⟨_, rfl, rfl, rfl, rfl⟩
  obtain ⟨s', hs', hrest⟩ := hacts
  exact ⟨s', .of_scans hscans hs', hrest⟩

/-- How the scanner takes a header line: the name up to `t`, the blanks and the value from `v`. -/
theorem scans_line {t v u z : Nat} {e : Bytes × Bytes}
    (hname : httpclientParserScanner.Scans st e.1 t
      fun p => before.map (fun a => (p, a)) ++ [(p, .startField)])
    (hcolon : httpclientParserScanner.next t 58 = (v, [.writeField])) (hv : v ≠ 0)
    (hblank : httpclientParserScanner.next v 32 = (v, [.startValue]))
    (hvalue : httpclientParserScanner.Scans v (e.2 ++ [13]) z fun p => (p, .startValue) ::
      (behind.map (fun a => (p + e.2.length, a)) ++ [(p + e.2.length, .writeValue)]))
    (hfeed : httpclientParserScanner.next z 10 = (u, [])) (hu : u ≠ 0) :
    httpclientParserScanner.Scans st (headerLine e) u (lineEvents before behind e) := by
  have hall := hname.trans (.trans (.byte hcolon hv (by decide))
    (.trans (.byte hblank hv (by decide)) (.trans hvalue (.byte hfeed hu (by decide)))))
  have htext : headerLine e = e.1 ++ ([58] ++ ([32] ++ (e.2 ++ [13] ++ [10]))) := by
    simp [headerLine, crlf, ascii]
  rw [htext]
  refine ⟨hall.passes, fun p => (hall.events p).trans ?_⟩
  simp [lineEvents, Nat.add_assoc]

theorem scans_value (hw : w ∈ fieldValue.language) :
    httpclientParserScanner.Scans 22 (w ++ [13]) 24
      fun p => [(p, .startValue), (p + w.length, .writeValue)] := by
  by_cases hw0 : w = []
  · subst hw0
    have hnext : httpclientParserScanner.next 22 13 = (24, [.startValue, .writeValue]) := by decide
    exact .byte hnext (by decide) (by decide)
  · obtain ⟨t, hpass, hevents, hexit⟩ := fieldValue_read hw hw0
    exact Scanner.Scans.trans ⟨hpass, hevents⟩ (.byte hexit (by decide) (by decide))

/-- A header without a meaning of its own. -/
theorem scans_plain {e : Bytes × Bytes} (hname : e.1 ∈ fieldName.language) (hplain : Plain e.1)
    (hvalue : e.2 ∈ fieldValue.language) :
    httpclientParserScanner.Scans 20 (headerLine e) 20 (lineEvents [] [] e) := by
  obtain ⟨t, hpass, hevents, hexit⟩ := fieldName_read hname hplain
  exact scans_line ⟨hpass, hevents⟩ hexit (by decide) (by decide) (scans_value hvalue) (by decide)
    (by decide)

/-- The state behind the line for the connection. -/
def connectionEnd (close : Bool) : Nat := if close then 43 else 20

theorem scans_connection (close : Bool) :
    httpclientParserScanner.Scans 20 (headerLine (connectionEntry close)) (connectionEnd close)
      (lineEvents [] [] (connectionEntry close)) := by
  refine ⟨by cases close <;> decide, fun p => ?_⟩
  rw [Scanner.scan_shift]
  cases close <;> rfl

theorem scans_contentLength (body : Bytes) (close : Bool) :
    httpclientParserScanner.Scans (connectionEnd close) (headerLine (contentLengthEntry body)) 20
      (lineEvents (if close then [.writeConnectionClose] else []) [.writeContentLen]
        (contentLengthEntry body)) := by
  have hname : httpclientParserScanner.Scans (connectionEnd close) (ascii "content-length") 111
      fun p => (if close then [ResponseAction.writeConnectionClose] else []).map
        (fun a => (p, a)) ++ [(p, .startField)] := by
    refine ⟨by cases close <;> decide, fun p => ?_⟩
    rw [Scanner.scan_shift]
    cases close <;> rfl
  obtain ⟨t, hpass, hevents, hexit⟩ := contentLength_read body.length
  have hvalue := Scanner.Scans.trans ⟨hpass, hevents⟩ (.byte hexit (by decide) (by decide))
  exact scans_line hname (by decide) (by decide) (by decide) hvalue (by decide) (by decide)

/-- Header lines set their headers one after the other. -/
theorem reads_lines {es : List (Bytes × Bytes)}
    (h : ∀ e ∈ es, e.1 ∈ fieldName.language ∧ e.2 ∈ fieldValue.language ∧ Plain e.1)
    (hmem : mem = pre ++ es.flatMap headerLine ++ rest) (hsize : mem.length < 2 ^ 63) :
    ∃ s', Reads mem 20 s pre (es.flatMap headerLine) 20 s' ∧ s'.error = s.error ∧
      s'.chunked = s.chunked ∧
      s'.data = { s.data with headers := s.data.headers.setAll es } := by
  induction es generalizing s pre with
  | nil => exact ⟨s, ⟨rfl, rfl⟩, rfl, rfl, rfl⟩
  | cons e es ih =>
    rw [List.forall_mem_cons] at h
    have hne : e.1 ≠ [] := by
      intro hnil
      have hname := h.1.1
      rw [hnil] at hname
      exact absurd hname (by decide)
    have hsplit : mem = pre ++ headerLine e ++ (es.flatMap headerLine ++ rest) := by
      rw [hmem, List.flatMap_cons]
      simp only [List.append_assoc]
    obtain ⟨s₁, h₁, herror₁, hchunked₁, hdata₁⟩ := reads_line (s := s)
      (scans_plain h.1.1 h.1.2.2 h.1.2.1) (Or.inl rfl) (Or.inl rfl) hne hsplit hsize
    have hrest : mem = pre ++ headerLine e ++ es.flatMap headerLine ++ rest := by
      rw [hsplit]
      simp only [List.append_assoc]
    obtain ⟨s₂, h₂, herror₂, hchunked₂, hdata₂⟩ := ih (s := s₁) h.2 hrest
    refine ⟨s₂, h₁.trans h₂, herror₂.trans herror₁, hchunked₂.trans hchunked₁, ?_⟩
    rw [hdata₂, hdata₁]
    rfl

/-- The line for the connection, and that for the length of a body. -/
theorem reads_last {close : Bool} {body : Bytes}
    (hmem : mem = pre ++ (headerLine (connectionEntry close) ++
      (if body = [] then [] else headerLine (contentLengthEntry body))) ++ rest)
    (hsize : mem.length < 2 ^ 63) :
    ∃ s' st', Reads mem 20 s pre (headerLine (connectionEntry close) ++
        (if body = [] then [] else headerLine (contentLengthEntry body))) st' s' ∧
      (st' = 20 ∨ st' = 43) ∧ s'.error = s.error ∧ s'.chunked = s.chunked ∧
      s'.data = { s.data with headers := s.data.headers.setAll (connectionEntry close ::
        if body = [] then [] else [contentLengthEntry body]) } := by
  have hne : (connectionEntry close).1 ≠ [] := List.cons_ne_nil _ _
  have hconnection : mem = pre ++ headerLine (connectionEntry close) ++
      ((if body = [] then [] else headerLine (contentLengthEntry body)) ++ rest) := by
    simp only [hmem, List.append_assoc]
  obtain ⟨s₁, h₁, herror₁, hchunked₁, hdata₁⟩ := reads_line (s := s)
    (scans_connection close) (Or.inl rfl) (Or.inl rfl) hne hconnection hsize
  by_cases hbody : body = []
  · refine ⟨s₁, connectionEnd close, ?_, ?_, herror₁, hchunked₁, ?_⟩
    · rw [if_pos hbody, List.append_nil]
      exact h₁
    · cases close
      · exact Or.inl rfl
      · exact Or.inr rfl
    · rw [hdata₁, if_pos hbody]
      rfl
  · have hlength : mem = pre ++ headerLine (connectionEntry close) ++
        headerLine (contentLengthEntry body) ++ rest := by
      rw [hconnection, if_neg hbody, List.append_assoc, List.append_assoc, List.append_assoc]
    rw [if_neg hbody]
    have hbefore : (if close then [ResponseAction.writeConnectionClose] else []) = [] ∨
        (if close then [ResponseAction.writeConnectionClose] else []) =
          [ResponseAction.writeConnectionClose] := by
      cases close
      · exact Or.inl rfl
      · exact Or.inr rfl
    obtain ⟨s₂, h₂, herror₂, hchunked₂, hdata₂⟩ := reads_line (s := s₁)
      (scans_contentLength body close) hbefore (Or.inr rfl) (List.cons_ne_nil _ _) hlength hsize
    refine ⟨s₂, 20, h₁.trans h₂, Or.inl rfl, herror₂.trans herror₁, hchunked₂.trans hchunked₁, ?_⟩
    rw [hdata₂, hdata₁, if_neg hbody]
    rfl

/-! ## The head -/

theorem httpStatus_reads :
    httpStatusMap.all (fun x => reasonPhrase.accepts (ascii x.2)) = true ∧
      reasonPhrase.accepts (ascii "<unknown>") = true := by
  decide +kernel

/-- The names of the statuses are reasons. -/
theorem httpStatusToString_mem (status : Int) :
    ascii (httpStatusToString status) ∈ reasonPhrase.language := by
  rw [← Regex.accepts_iff, httpStatusToString]
  split
  · rename_i x hx
    exact List.all_eq_true.mp httpStatus_reads.1 x (List.mem_of_find?_eq_some hx)
  · exact httpStatus_reads.2

variable {r : HttpResponse}

theorem reasonText_mem (h : r.Writable) : r.reasonText ∈ reasonPhrase.language := by
  rw [HttpResponse.reasonText]
  split
  · exact httpStatusToString_mem r.status
  · rename_i hne
    exact h.reason.resolve_left hne

theorem written_read (h : r.Writable) : ∀ e ∈ r.headers.written,
    e.1 ∈ fieldName.language ∧ e.2 ∈ fieldValue.language ∧ Plain e.1 := by
  intro e he
  obtain ⟨hmem, hnot⟩ := HeaderMap.mem_written.mp he
  refine (h.headers e hmem).resolve_left fun hsame => ?_
  rw [hsame] at hnot
  cases hnot

theorem pairwise_lines (h : r.Writable) :
    r.lines.Pairwise fun a b => sameKey a.1 b.1 = false := by
  have hwritten : r.headers.written.Pairwise fun a b => sameKey a.1 b.1 = false := by
    refine List.Pairwise.filter _ ((r.headers.perm_entries.pairwise_iff ?_).mpr h.keys)
    exact fun {a b} hab => (sameKey_comm _ _).trans hab
  have hlast : sameKey (ascii "connection") (ascii "content-length") = false := by decide
  rw [HttpResponse.lines, List.pairwise_append, List.pairwise_cons]
  refine ⟨hwritten, ⟨fun e he => ?_, ?_⟩, fun e he f hf => ?_⟩
  · split at he
    · cases he
    · rw [List.mem_singleton.mp he]
      exact hlast
  · split <;> simp
  · rcases List.mem_cons.mp hf with rfl | hf
    · exact (HeaderMap.mem_written.mp he).2
    · split at hf
      · cases hf
      · rw [List.mem_singleton.mp hf]
        exact (written_read h e he).2.2.2.1

theorem setAll_append (m : HeaderMap) (es fs : List (Bytes × Bytes)) :
    (m.setAll es).setAll fs = m.setAll (es ++ fs) := (List.foldl_append ..).symm

/-- Entries with different keys stay as they are set. -/
theorem setAll_eq {m : HeaderMap} {es : List (Bytes × Bytes)}
    (h : (m ++ es).Pairwise fun a b => sameKey a.1 b.1 = false) : m.setAll es = m ++ es := by
  induction es generalizing m with
  | nil => exact (List.append_nil m).symm
  | cons e es ih =>
    have hset : m.set e.1 e.2 = m ++ [e] := by
      rw [HeaderMap.set, if_neg]
      rw [List.any_eq_true]
      rintro ⟨f, hf, hsame⟩
      have hdiff := (List.pairwise_append.mp h).2.2 f hf e List.mem_cons_self
      rw [hsame] at hdiff
      cases hdiff
    rw [HeaderMap.setAll, List.foldl_cons, ← HeaderMap.setAll, hset]
    rw [show m ++ e :: es = m ++ [e] ++ es by simp] at h ⊢
    exact ih h

theorem head_eq (r : HttpResponse) :
    r.head = ascii "HTTP/" ++ versionText r.version ++ [32] ++
      ((decimal (r.status % 2 ^ 32).toNat ++ [32]) ++ ((r.reasonText ++ crlf) ++
        (r.headers.written.flatMap headerLine ++ ((headerLine (connectionEntry r.close) ++
          (if r.body = [] then [] else headerLine (contentLengthEntry r.body))) ++ ([13] ++
            [10]))))) := by
  have hspace : ascii " " = [32] := by decide
  rw [HttpResponse.head, HttpResponse.startLine, headEnd, HttpResponse.reasonText, hspace, crlf]
  split <;> split <;> simp [List.append_assoc]

/-- Reading a text from the start, and the end of the blank line behind it. -/
theorem Reads.finish {text : Bytes} (h : Reads (text ++ [10]) 1 new [] text 3 s) :
    httpclientParserScanner.Accepts 1 (text ++ [10]) ∧
      (httpclientParserScanner.scan 1 0 (text ++ [10])).state = 120 ∧
        ∃ t, headParser (text ++ [10]) = .ok t ∧ t.error = s.error ∧ t.chunked = s.chunked ∧
          t.data = s.data := by
  have hend : httpclientParserScanner.next 3 10 = (120, [.done]) := by decide
  have hbreak : httpclientParserScanner.breaksOn 3 10 = true := by decide
  refine ⟨⟨_, _, _, rfl, h.passes, hbreak⟩, ?_, ?_⟩
  · rw [Scanner.scan_append h.passes]
    simp only [Scanner.scan, hbreak, if_true, hend]
  · have hacts := h.acts
    rw [List.length_nil] at hacts
    have hrun : headParser (text ++ [10]) =
        s.act (text ++ [10]) (text ++ [10]).length (0 + text.length) .done := by
      rw [headParser, Scanner.scan_append h.passes, acts_append, hacts]
      simp only [Scanner.scan, hbreak, if_true, hend]
      rfl
    exact ⟨_, hrun.trans rfl, rfl, rfl, rfl⟩

/-- The head is accepted, and the parser behind it has all of the response but its body. -/
theorem head_parsed (h : r.Writable) (hsize : r.head.length < 2 ^ 63) :
    httpclientParserScanner.Accepts 1 r.head ∧
      (httpclientParserScanner.scan 1 0 r.head).state = 120 ∧
        ∃ t, headParser r.head = .ok t ∧ t.error = 0 ∧ t.chunked = false ∧
          t.data = { r.received with body := [] } := by
  have hhead := head_eq r
  have hstatus : r.head = ascii "HTTP/" ++ versionText r.version ++ [32] ++
      (decimal (r.status % 2 ^ 32).toNat ++ [32]) ++ _ :=
    hhead.trans (List.append_assoc ..).symm
  have hreason : r.head = ascii "HTTP/" ++ versionText r.version ++ [32] ++
      (decimal (r.status % 2 ^ 32).toNat ++ [32]) ++ (r.reasonText ++ crlf) ++ _ :=
    hstatus.trans (List.append_assoc ..).symm
  have hlines : r.head = ascii "HTTP/" ++ versionText r.version ++ [32] ++
      (decimal (r.status % 2 ^ 32).toNat ++ [32]) ++ (r.reasonText ++ crlf) ++
      r.headers.written.flatMap headerLine ++ _ := hreason.trans (List.append_assoc ..).symm
  have hlast := hlines.trans (List.append_assoc ..).symm
  obtain ⟨s₁, h₁, he₁, hc₁, hd₁⟩ := reads_version h.version hhead
  obtain ⟨s₂, h₂, he₂, hc₂, hd₂⟩ := reads_status (s := s₁) h.status hstatus
  obtain ⟨s₃, h₃, he₃, hc₃, hd₃⟩ := reads_reason (s := s₂) (reasonText_mem h) hreason hsize
  obtain ⟨s₄, h₄, he₄, hc₄, hd₄⟩ := reads_lines (s := s₃) (written_read h) hlines hsize
  obtain ⟨s₅, st, h₅, hst, he₅, hc₅, hd₅⟩ := reads_last (s := s₄) hlast hsize
  obtain ⟨s₆, h₆, he₆, hc₆, hd₆⟩ : ∃ s', (∀ p : Bytes, Reads r.head st s₅ p [13] 3 s') ∧
      s'.error = s₅.error ∧ s'.chunked = s₅.chunked ∧ s'.data = s₅.data := by
    have h20 : httpclientParserScanner.next 20 13 = (3, []) := by decide
    have h43 : httpclientParserScanner.next 43 13 = (3, [.writeConnectionClose]) := by decide
    rcases hst with rfl | rfl
    · exact ⟨s₅, fun p => .of_scans (.byte h20 (by decide) rfl) rfl, rfl, rfl, rfl⟩
    · exact ⟨s₅, fun p => .of_scans (.byte h43 (by decide) rfl) rfl, rfl, rfl, rfl⟩
  have hall := ((((h₁.trans h₂).trans h₃).trans h₄).trans h₅).trans (h₆ _)
  have hend := hlast.trans (List.append_assoc ..).symm
  rw [hend] at hall ⊢
  obtain ⟨haccepts, hstate, t, ht, het, hct, hdt⟩ := hall.finish
  refine ⟨haccepts, hstate, t, ht, ?_, ?_, ?_⟩
  · rw [het, he₆, he₅, he₄, he₃, he₂, he₁]
  · rw [hct, hc₆, hc₅, hc₄, hc₃, hc₂, hc₁]
  · rw [hdt, hd₆, hd₅, hd₄, hd₃, hd₂, hd₁]
    have hset : HeaderMap.setAll [] r.lines = r.lines := setAll_eq (m := []) (pairwise_lines h)
    simp only [setAll_append]
    rw [← HttpResponse.lines, hset]
    rfl

theorem getContentLength_lines {lexicalCast : Bytes → Option UInt64} (h : r.Writable)
    (hsize : r.body.length < 2 ^ 64)
    (hcast : ∀ n, n < 2 ^ 64 → lexicalCast (decimal n) = some (UInt64.ofNat n))
    (hs : s.data.headers = r.lines) : (s.getContentLength lexicalCast).toNat = r.body.length := by
  have hset : HeaderMap.setAll [] r.lines = r.lines := setAll_eq (m := []) (pairwise_lines h)
  rw [getContentLength, HeaderMap.getAs, hs, ← hset]
  by_cases hbody : r.body = []
  · have hnone : HeaderMap.get (HeaderMap.setAll [] r.lines) (ascii "content-length") = none := by
      rw [HeaderMap.get_setAll_of_not]
      · rfl
      · intro e he
        rw [HttpResponse.lines, hbody, if_pos rfl, List.mem_append, List.mem_singleton] at he
        rcases he with he | rfl
        · exact (written_read h e he).2.2.2.1
        · exact (by decide : sameKey (ascii "connection") (ascii "content-length") = false)
    rw [hnone, hbody]
    rfl
  · have hmem : contentLengthEntry r.body ∈ r.lines := by
      rw [HttpResponse.lines, if_neg hbody]
      simp
    have hget := HeaderMap.get_setAll (m := []) (pairwise_lines h) hmem
    rw [contentLengthEntry] at hget
    rw [hget]
    dsimp only
    rw [hcast _ hsize, Option.getD_some, UInt64.toNat_ofNat', Nat.mod_eq_of_lt hsize]

end ResponseParser

namespace ResponseBuffer
open ResponseParser

variable {c : ResponseBuffer} {r : HttpResponse} {head body : Bytes} {t : ResponseParser}
  {sock : PeerSocket}

/-- What is written of a response is a head and a body as they are to be received. -/
theorem complete_of_writable (h : r.Writable) (hshort : r.head.length < c.buffSize)
    (hbuffer : c.buffSize < 2 ^ 62) (hsize : r.body.length < 2 ^ 63)
    (hcast : ∀ n, n < 2 ^ 64 → c.lexicalCast (decimal n) = some (UInt64.ofNat n)) :
    ∃ t, c.CompleteResponse r.head r.body t ∧ { t.data with body := r.body } = r.received := by
  obtain ⟨haccepts, hstate, t, ht, herror, hchunked, hdata⟩ := head_parsed h (by omega)
  refine ⟨t, ⟨haccepts, hstate, ht, herror, hchunked, hshort, hbuffer, hsize, ?_⟩, ?_⟩
  · exact getContentLength_lines h (by omega) hcast (by rw [hdata]; rfl)
  · rw [hdata]
    rfl

/-- A response whose reads cut nothing of it is returned. -/
theorem CompleteResponse.recvResponse (hr : c.CompleteResponse head body t) (hs : sock.Proper)
    (hbytes : sock.bytes = head ++ body) (hcut : c.WellCut sock head body) :
    ∃ fuel, c.recvResponse fuel sock = .ok { t.data with body := body } := by
  obtain ⟨p, x, g, sock', hhead, hread⟩ := hr.recvHead hs hbytes hcut.1
  have hlen := congrArg List.length hread.body
  rw [List.length_append] at hlen
  have hsize := hr.size
  have hcontent : p.getContentLength c.lexicalCast = t.getContentLength c.lexicalCast := by
    rw [ResponseParser.getContentLength, ResponseParser.getContentLength, hread.data]
  have hbody : c.recvBody (head.length + sock'.bytes.length + 1) p (x ++ g) x.length sock' =
      .ok { p with data := p.data.setBody (x ++ sock'.bytes) } :=
    recvBody_whole hread.proper rfl (by omega) (by rw [hcontent, hr.length, hlen])
      (by rw [hread.data, hr.body_nil]) (hread.rest_iff.mp hcut.2) (by omega)
  have hplain : p.chunked = false := hread.chunked.trans hr.plain
  refine ⟨head.length + sock'.bytes.length + 1, ?_⟩
  rw [ResponseBuffer.recvResponse, receive, hhead _ (by omega)]
  simp only [bind, Except.bind]
  rw [if_neg (by rw [hplain]; exact Bool.false_ne_true), hbody, hread.body, ← hread.data]
  rfl

/-- What `dump` writes of a response is received as the response, with the name of the status in
    place of a reason that is empty, the lines that have been written as its headers, and `m_close`
    set. -/
theorem response_round_trip (h : r.Writable) (hshort : r.head.length < c.buffSize)
    (hbuffer : c.buffSize < 2 ^ 62) (hsize : r.body.length < 2 ^ 63)
    (hcast : ∀ n, n < 2 ^ 64 → c.lexicalCast (decimal n) = some (UInt64.ofNat n))
    (hs : sock.Proper) (hbytes : sock.bytes = r.dump) (hcut : c.WellCut sock r.head r.body) :
    ∃ fuel, c.recvResponse fuel sock = .ok r.received := by
  obtain ⟨t, hcomplete, hdata⟩ := complete_of_writable h hshort hbuffer hsize hcast
  rw [← hdata]
  exact hcomplete.recvResponse hs hbytes hcut

/-- A response with a status that no `int` has as a positive number, and a header that is not
    written. -/
def exampleWritten : HttpResponse where
  status := -1
  version := 0x10
  close := false
  body := ascii "hi"
  headers := [(ascii "Connected", []), (ascii "connection", ascii "a\nb")]

theorem exampleWritten_writable : exampleWritten.Writable where
  version := Or.inl rfl
  status := by decide
  reason := Or.inl rfl
  keys := by decide
  headers := by decide

/-- A connection with a buffer of 128 bytes. -/
def exampleReceiver : ResponseBuffer := ⟨128, List.replicate 129 0, decimalCast, rfl⟩

theorem response_round_trip_hi :
    ∃ fuel, exampleReceiver.recvResponse fuel ⟨[exampleWritten.head, ascii "hi"], true⟩ =
      .ok exampleWritten.received :=
  response_round_trip exampleWritten_writable (by decide) (by decide) (by decide)
    (fun _ hn => decimalCast_decimal hn) (by simp only [PeerSocket.Proper]; decide) (by decide)
    ⟨by unfold Uncut; decide, by decide⟩

end ResponseBuffer

end CppServerFramework.HTTP

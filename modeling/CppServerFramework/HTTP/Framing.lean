import CppServerFramework.HTTP.Dump
import CppServerFramework.HTTP.Built

/-!
# The header lines of what `dump` writes

`dump` writes a line for the connection and one for the length of the body next to the lines of
the header map.  Of the map it leaves out the entries for the connection only.
-/

namespace CppServerFramework.HTTP
open CInt

/-! ## Lines -/

/-- The lines of a text, without their ends. -/
def splitCrlf : Bytes → List Bytes
  | [] => [[]]
  | 13 :: 10 :: bs => [] :: splitCrlf bs
  | b :: bs => (splitCrlf bs).modifyHead (b :: ·)

theorem splitCrlf_ne_nil (w : Bytes) : splitCrlf w ≠ [] := by
  fun_induction splitCrlf w with
  | case1 => exact List.cons_ne_nil _ _
  | case2 bs ih => exact List.cons_ne_nil _ _
  | case3 b bs hne ih => simpa [List.modifyHead_eq_nil_iff] using ih

theorem splitCrlf_append (v w : Bytes) :
    splitCrlf (v ++ crlf ++ w) = splitCrlf v ++ splitCrlf w := by
  fun_induction splitCrlf v with
  | case1 => rfl
  | case2 bs ih =>
    change [] :: splitCrlf (bs ++ crlf ++ w) = _
    rw [ih]
    rfl
  | case3 b bs hne ih =>
    have hcons : splitCrlf (b :: bs ++ crlf ++ w) =
        (splitCrlf (bs ++ crlf ++ w)).modifyHead (b :: ·) := by
      refine splitCrlf.eq_3 b (bs ++ crlf ++ w) fun cs hb hcs => ?_
      cases bs with
      | nil => cases hcs
      | cons c bs =>
        obtain ⟨rfl, -⟩ := List.cons.inj hcs
        exact hne _ hb rfl
    rw [hcons, ih]
    cases hbs : splitCrlf bs with
    | nil => exact absurd hbs (splitCrlf_ne_nil bs)
    | cons l ls => rfl

theorem splitCrlf_of_not_mem {w : Bytes} (h : 10 ∉ w) : splitCrlf w = [w] := by
  fun_induction splitCrlf w with
  | case1 => rfl
  | case2 bs ih => simp at h
  | case3 b bs hne ih =>
    rw [ih fun hmem => h (List.mem_cons_of_mem b hmem)]
    rfl

/-- The name of a header line: what stands in front of the colon. -/
def lineName (l : Bytes) : Bytes := l.takeWhile (· ≠ 58)

/-- The value of a header line: what stands behind the colon and the blanks. -/
def lineValue (l : Bytes) : Bytes := ((l.dropWhile (· ≠ 58)).drop 1).dropWhile (· = 32)

def isLineOf (name : String) (l : Bytes) : Bool := sameKey (lineName l) (ascii name)

/-- The header lines of a message: those between its first line and the blank line. -/
def headerLinesOf (message : Bytes) : List Bytes := (splitCrlf message).tail.takeWhile (· ≠ [])

/-- At most one line is for the connection, and one, if there is a body, for its length. -/
structure Framed (message body : Bytes) : Prop where
  connection : (headerLinesOf message).countP (isLineOf "connection") ≤ 1
  contentLength : body ≠ [] →
    ((headerLinesOf message).filter (isLineOf "content-length")).map lineValue =
      [decimal body.length]

/-- An entry of a header map as it is written, without the line end. -/
def entryText (e : Bytes × Bytes) : Bytes := e.1 ++ ascii ": " ++ e.2

/-- The lines that a header map is written as. -/
def HeaderMap.lines (m : HeaderMap) : List Bytes :=
  m.written.flatMap fun e => splitCrlf (entryText e)

/-- The lines of a header map leave one length for the body: none of them is for the length, or,
    where one of them is blank, one of those in front of it is and has the length of the body. -/
def LeavesLength (ls : List Bytes) (body : Bytes) : Prop :=
  if [] ∈ ls then
    ((ls.takeWhile (· ≠ [])).filter (isLineOf "content-length")).map lineValue =
      [decimal body.length]
  else ∀ l ∈ ls, isLineOf "content-length" l = false

section
variable {ls post : List Bytes} {body : Bytes}

theorem takeWhile_of_blank (h : [] ∈ ls) (more : List Bytes) :
    (ls ++ more).takeWhile (· ≠ []) = ls.takeWhile (· ≠ []) := by
  induction ls with
  | nil => cases h
  | cons l ls ih =>
    rw [List.cons_append, List.takeWhile_cons, List.takeWhile_cons]
    by_cases hl : l = []
    · simp [hl]
    · have hmem : [] ∈ ls := (List.mem_cons.mp h).resolve_left fun heq => hl heq.symm
      simpa [hl] using ih hmem

theorem takeWhile_of_no_blank (h : [] ∉ ls) (more : List Bytes) :
    (ls ++ more).takeWhile (· ≠ []) = ls ++ more.takeWhile (· ≠ []) :=
  List.takeWhile_append_of_pos fun l hl => by
    have hne : l ≠ [] := fun heq => h (heq ▸ hl)
    simpa using hne

/-- The lines of the header map up to the blank line, and those behind them if there is none
    among them. -/
theorem takeWhile_lines (hpost : [] ∉ post) (more : List Bytes) :
    (ls ++ (post ++ [] :: more)).takeWhile (· ≠ []) =
      if [] ∈ ls then ls.takeWhile (· ≠ []) else ls ++ post := by
  split
  · rename_i h
    exact takeWhile_of_blank h _
  · rename_i h
    rw [takeWhile_of_no_blank h, takeWhile_of_no_blank hpost]
    simp

/-- The line for the length of a body. -/
def lengthLine (body : Bytes) : Bytes := entryText (contentLengthEntry body)

theorem lengthLine_eq (body : Bytes) :
    lengthLine body = ascii "content-length" ++ 58 :: 32 :: decimal body.length := by
  have hsep : ascii ": " = [58, 32] := by decide
  simp [lengthLine, entryText, contentLengthEntry, hsep]

theorem takeWhile_name {name : Bytes} (h : 58 ∉ name) (more : Bytes) :
    (name ++ 58 :: more).takeWhile (· ≠ 58) = name ∧
      (name ++ 58 :: more).dropWhile (· ≠ 58) = 58 :: more := by
  have hall : ∀ b ∈ name, (decide (b ≠ 58)) = true := fun b hb => by
    have hne : b ≠ 58 := fun heq => h (heq ▸ hb)
    simpa using hne
  constructor
  · rw [List.takeWhile_append_of_pos hall]
    simp
  · rw [List.dropWhile_append_of_pos hall]
    simp

theorem lineName_lengthLine (body : Bytes) :
    lineName (lengthLine body) = ascii "content-length" := by
  rw [lineName, lengthLine_eq]
  exact (takeWhile_name (by decide) _).1

theorem lineValue_lengthLine (body : Bytes) :
    lineValue (lengthLine body) = decimal body.length := by
  rw [lineValue, lengthLine_eq, (takeWhile_name (by decide) _).2]
  have hdigits : decimal body.length ≠ [] := decimal_ne_nil _
  cases hd : decimal body.length with
  | nil => exact absurd hd hdigits
  | cons b w =>
    have hb := digit_of_mem_decimal (hd ▸ List.mem_cons_self : b ∈ decimal body.length)
    have hne : b ≠ 32 := by
      rintro rfl
      exact absurd hb.1 (by decide)
    simp [hne]

theorem isLineOf_lengthLine (body : Bytes) :
    isLineOf "content-length" (lengthLine body) = true ∧
      isLineOf "connection" (lengthLine body) = false := by
  rw [isLineOf, isLineOf, lineName_lengthLine]
  decide

theorem isLineOf_connectionLine (close : Bool) :
    isLineOf "connection" (entryText (connectionEntry close)) = true ∧
      isLineOf "content-length" (entryText (connectionEntry close)) = false := by
  cases close <;> decide

/-- With the line of `dump` behind lines none of which is blank, there is one length exactly
    when none of these is for it. -/
theorem lengths_iff (hpost : post.filter (isLineOf "content-length") = [lengthLine body]) :
    ((ls ++ post).filter (isLineOf "content-length")).map lineValue = [decimal body.length] ↔
      ∀ l ∈ ls, isLineOf "content-length" l = false := by
  rw [List.filter_append, hpost, List.map_append, List.map_singleton, lineValue_lengthLine]
  constructor
  · intro h l hl
    have hlen := congrArg List.length h
    rw [List.length_append, List.length_map] at hlen
    simp only [List.length_singleton] at hlen
    have hnil : ls.filter (isLineOf "content-length") = [] := List.length_eq_zero_iff.mp (by omega)
    exact Bool.eq_false_iff.mpr (List.filter_eq_nil_iff.mp hnil l hl)
  · intro h
    have hnil : ls.filter (isLineOf "content-length") = [] :=
      List.filter_eq_nil_iff.mpr fun l hl => Bool.eq_false_iff.mp (h l hl)
    rw [hnil]
    rfl

end

/-! ## The first line -/

theorem not_mem_decimal (n : Nat) : 10 ∉ decimal n := fun h =>
  absurd (digit_of_mem_decimal h).1 (by decide)

theorem not_mem_versionText (version : UInt8) : 10 ∉ versionText version := by
  have hdot : (10 : UInt8) ∉ ascii "." := by decide
  simp [versionText, not_mem_decimal, hdot]

theorem HttpRequest.OneLine.not_mem {r : HttpRequest} (h : r.OneLine) : 10 ∉ r.startLine := by
  have hmethod : (10 : UInt8) ∉ ascii (httpMethodToString r.method) := by
    cases r.method <;> decide
  have hmarks : (10 : UInt8) ∉ ascii " " ∧ (10 : UInt8) ∉ ascii "?" ∧ (10 : UInt8) ∉ ascii "#" ∧
      (10 : UInt8) ∉ ascii " HTTP/" := by decide
  obtain ⟨hblank, hquery, hhash, hversion⟩ := hmarks
  have hmark : ∀ (c : Prop) [Decidable c] (m : Bytes), (10 : UInt8) ∉ m →
      (10 : UInt8) ∉ (if c then [] else m) := by
    intro c _ m hm
    split
    · exact List.not_mem_nil
    · exact hm
  simp only [startLine, List.mem_append, not_or]
  exact ⟨⟨⟨⟨⟨⟨⟨⟨hmethod, hblank⟩, h.1⟩, hmark _ _ hquery⟩, h.2.1⟩, hmark _ _ hhash⟩, h.2.2⟩,
    hversion⟩, not_mem_versionText _⟩

theorem not_mem_httpStatusToString (s : Int) : 10 ∉ ascii (httpStatusToString s) := by
  have hmap : ∀ x ∈ httpStatusMap, (10 : UInt8) ∉ ascii x.2 := by decide +kernel
  rw [httpStatusToString]
  split
  · rename_i x hx
    exact hmap x (List.mem_of_find?_eq_some hx)
  · decide

theorem HttpResponse.OneLine.not_mem {r : HttpResponse} (h : r.OneLine) : 10 ∉ r.startLine := by
  have hmarks : (10 : UInt8) ∉ ascii "HTTP/" ∧ (10 : UInt8) ∉ ascii " " := by decide
  have hreason : (10 : UInt8) ∉
      (if r.reason = [] then ascii (httpStatusToString r.status) else r.reason) := by
    split
    · exact not_mem_httpStatusToString _
    · exact h
  simp only [startLine, List.mem_append, not_or]
  exact ⟨⟨⟨⟨⟨hmarks.1, not_mem_versionText _⟩, hmarks.2⟩, not_mem_decimal _⟩, hmarks.2⟩, hreason⟩

/-! ## The lines of a message -/

theorem splitCrlf_headerLines (es : List (Bytes × Bytes)) (more : Bytes) :
    splitCrlf (es.flatMap headerLine ++ more) =
      (es.flatMap fun e => splitCrlf (entryText e)) ++ splitCrlf more := by
  induction es with
  | nil => rfl
  | cons e es ih =>
    have hline : headerLine e = entryText e ++ crlf := rfl
    rw [List.flatMap_cons, List.flatMap_cons, hline, List.append_assoc, splitCrlf_append, ih,
      List.append_assoc]

theorem splitCrlf_headEnd (body : Bytes) :
    splitCrlf (headEnd body ++ body) =
      (if body = [] then [] else [lengthLine body]) ++ [] :: splitCrlf body := by
  rw [headEnd]
  split
  · exact splitCrlf_append [] _
  · have hline : headerLine (contentLengthEntry body) = lengthLine body ++ crlf := rfl
    have hlf : 10 ∉ lengthLine body := by
      have hname : (10 : UInt8) ∉ ascii "content-length" := by decide
      rw [lengthLine_eq]
      simp [hname, not_mem_decimal]
    rw [hline, List.append_assoc, splitCrlf_append, splitCrlf_of_not_mem hlf]
    exact congrArg _ (splitCrlf_append [] _)

theorem splitCrlf_connection (close : Bool) (more : Bytes) :
    splitCrlf (headerLine (connectionEntry close) ++ more) =
      entryText (connectionEntry close) :: splitCrlf more := by
  have hline : headerLine (connectionEntry close) = entryText (connectionEntry close) ++ crlf := rfl
  have hone : splitCrlf (entryText (connectionEntry close)) =
      [entryText (connectionEntry close)] := by
    cases close <;> decide
  rw [hline, splitCrlf_append, hone]
  rfl

/-- What is written behind the header map for the body. -/
def lengthLines (body : Bytes) : List Bytes := if body = [] then [] else [lengthLine body]

theorem lengthLines_no_blank (body : Bytes) : [] ∉ lengthLines body := by
  rw [lengthLines]
  split
  · exact List.not_mem_nil
  · rw [List.mem_singleton, lengthLine_eq]
    simp

theorem connection_not_mem_lengthLines {body l : Bytes} (hl : l ∈ lengthLines body) :
    isLineOf "connection" l = false := by
  rw [lengthLines] at hl
  split at hl
  · cases hl
  · rw [List.mem_singleton.mp hl]
    exact (isLineOf_lengthLine body).2

theorem filter_lengthLines {body : Bytes} (hbody : body ≠ []) :
    (lengthLines body).filter (isLineOf "content-length") = [lengthLine body] := by
  rw [lengthLines, if_neg hbody, List.filter_singleton, (isLineOf_lengthLine body).1]
  rfl

theorem HttpRequest.headerLinesOf_dump {r : HttpRequest} (h : r.OneLine) :
    headerLinesOf r.dump = entryText (connectionEntry r.close) ::
      if [] ∈ r.headers.lines then r.headers.lines.takeWhile (· ≠ [])
      else r.headers.lines ++ lengthLines r.body := by
  have hdump : r.dump = r.startLine ++ crlf ++ (headerLine (connectionEntry r.close) ++
      (r.headers.written.flatMap headerLine ++ (headEnd r.body ++ r.body))) := by
    simp [dump, head]
  have hne : entryText (connectionEntry r.close) ≠ [] := by
    cases r.close <;> decide
  rw [headerLinesOf, hdump, splitCrlf_append, splitCrlf_of_not_mem h.not_mem, splitCrlf_connection,
    splitCrlf_headerLines, splitCrlf_headEnd, List.singleton_append, List.tail_cons,
    List.takeWhile_cons, if_pos (by simpa using hne)]
  exact congrArg _ (takeWhile_lines (lengthLines_no_blank r.body) _)

theorem HttpResponse.headerLinesOf_dump {r : HttpResponse} (h : r.OneLine) :
    headerLinesOf r.dump = if [] ∈ r.headers.lines then r.headers.lines.takeWhile (· ≠ [])
      else r.headers.lines ++ entryText (connectionEntry r.close) :: lengthLines r.body := by
  have hdump : r.dump = r.startLine ++ crlf ++ (r.headers.written.flatMap headerLine ++
      (headerLine (connectionEntry r.close) ++ (headEnd r.body ++ r.body))) := by
    simp [dump, head]
  have hpost : [] ∉ entryText (connectionEntry r.close) :: lengthLines r.body := by
    rw [List.mem_cons, not_or]
    exact ⟨by cases r.close <;> decide, lengthLines_no_blank r.body⟩
  rw [headerLinesOf, hdump, splitCrlf_append, splitCrlf_of_not_mem h.not_mem,
    splitCrlf_headerLines, splitCrlf_connection, splitCrlf_headEnd, List.singleton_append,
    List.tail_cons]
  exact takeWhile_lines hpost _

/-- The lines of a header map leave the one line for the connection that a response has behind
    them: none of them is for it, or, where one of them is blank, at most one in front of that. -/
def LeavesConnection (ls : List Bytes) : Prop :=
  if [] ∈ ls then (ls.takeWhile (· ≠ [])).countP (isLineOf "connection") ≤ 1
  else ∀ l ∈ ls, isLineOf "connection" l = false

theorem takeWhile_eq_self {ls : List Bytes} (h : [] ∉ ls) : ls.takeWhile (· ≠ []) = ls := by
  simpa using takeWhile_of_no_blank h []

theorem countP_eq_zero {ls : List Bytes} {name : String} :
    ls.countP (isLineOf name) = 0 ↔ ∀ l ∈ ls, isLineOf name l = false := by
  simp [List.countP_eq_zero]

/-- The two parts of the framing, each with what it comes to. -/
theorem framed_congr {msg body : Bytes} {P Q : Prop}
    (hconnection : (headerLinesOf msg).countP (isLineOf "connection") ≤ 1 ↔ P)
    (hlength : body ≠ [] → (((headerLinesOf msg).filter (isLineOf "content-length")).map
      lineValue = [decimal body.length] ↔ Q)) :
    Framed msg body ↔ P ∧ (body ≠ [] → Q) := by
  constructor
  · rintro ⟨hc, hl⟩
    exact ⟨hconnection.mp hc, fun hbody => (hlength hbody).mp (hl hbody)⟩
  · rintro ⟨hc, hl⟩
    exact ⟨hconnection.mpr hc, fun hbody => (hlength hbody).mpr (hl hbody)⟩

theorem HttpRequest.framed_iff {r : HttpRequest} (h : r.OneLine) :
    Framed r.dump r.body ↔
      (∀ l ∈ r.headers.lines.takeWhile (· ≠ []), isLineOf "connection" l = false) ∧
        (r.body ≠ [] → LeavesLength r.headers.lines r.body) := by
  obtain ⟨hown, hother⟩ := isLineOf_connectionLine r.close
  have hlines := HttpRequest.headerLinesOf_dump h
  have hconnection : (headerLinesOf r.dump).countP (isLineOf "connection") ≤ 1 ↔
      ∀ l ∈ r.headers.lines.takeWhile (· ≠ []), isLineOf "connection" l = false := by
    have hzero : ∀ n : Nat, n + 1 ≤ 1 ↔ n = 0 := fun n => by omega
    rw [hlines, List.countP_cons_of_pos hown, hzero, countP_eq_zero]
    split
    · rfl
    · rename_i hblank
      rw [takeWhile_eq_self hblank]
      constructor
      · exact fun hall l hl => hall l (List.mem_append_left _ hl)
      · intro hall l hl
        rcases List.mem_append.mp hl with hl | hl
        · exact hall l hl
        · exact connection_not_mem_lengthLines hl
  have hlength : r.body ≠ [] → (((headerLinesOf r.dump).filter (isLineOf "content-length")).map
      lineValue = [decimal r.body.length] ↔ LeavesLength r.headers.lines r.body) := by
    intro hbody
    rw [hlines, List.filter_cons_of_neg (by rw [hother]; exact Bool.false_ne_true), LeavesLength]
    split
    · rfl
    · exact lengths_iff (filter_lengthLines hbody)
  exact framed_congr hconnection hlength

theorem HttpResponse.framed_iff {r : HttpResponse} (h : r.OneLine) :
    Framed r.dump r.body ↔
      LeavesConnection r.headers.lines ∧ (r.body ≠ [] → LeavesLength r.headers.lines r.body) := by
  obtain ⟨hown, hother⟩ := isLineOf_connectionLine r.close
  have hlines := HttpResponse.headerLinesOf_dump h
  have hconnection : (headerLinesOf r.dump).countP (isLineOf "connection") ≤ 1 ↔
      LeavesConnection r.headers.lines := by
    rw [hlines, LeavesConnection]
    split
    · rfl
    · have hlast : (lengthLines r.body).countP (isLineOf "connection") = 0 :=
        countP_eq_zero.mpr fun l hl => connection_not_mem_lengthLines hl
      rw [List.countP_append, List.countP_cons_of_pos hown, hlast, ← countP_eq_zero]
      omega
  have hlength : r.body ≠ [] → (((headerLinesOf r.dump).filter (isLineOf "content-length")).map
      lineValue = [decimal r.body.length] ↔ LeavesLength r.headers.lines r.body) := by
    intro hbody
    rw [hlines, LeavesLength]
    split
    · rfl
    · refine lengths_iff ?_
      rw [List.filter_cons_of_neg (by rw [hother]; exact Bool.false_ne_true)]
      exact filter_lengthLines hbody
  exact framed_congr hconnection hlength

/-- A header map without line ends and without colons in the names. -/
def HeaderMap.Plain (m : HeaderMap) : Prop := ∀ e ∈ m, 10 ∉ e.1 ∧ 58 ∉ e.1 ∧ 10 ∉ e.2

/-- A plain map has one line for each entry that is written, which has the entry's name. -/
theorem HeaderMap.Plain.mem_lines {m : HeaderMap} (h : m.Plain) {l : Bytes} :
    l ∈ m.lines ↔ ∃ e ∈ m, sameKey e.1 (ascii "connection") = false ∧ l = entryText e ∧
      lineName l = e.1 := by
  have hsep : ascii ": " = [58, 32] := by decide
  have hentry : ∀ e ∈ m, splitCrlf (entryText e) = [entryText e] ∧
      lineName (entryText e) = e.1 := by
    intro e he
    obtain ⟨h1, h2, h3⟩ := h e he
    have htext : entryText e = e.1 ++ 58 :: 32 :: e.2 := by simp [entryText, hsep]
    rw [htext]
    exact ⟨splitCrlf_of_not_mem (by simp [h1, h3]), (takeWhile_name h2 _).1⟩
  simp only [lines, List.mem_flatMap, mem_written]
  constructor
  · rintro ⟨e, ⟨he, hkey⟩, hl⟩
    rw [(hentry e he).1, List.mem_singleton] at hl
    exact ⟨e, he, hkey, hl, hl ▸ (hentry e he).2⟩
  · rintro ⟨e, he, hkey, rfl, -⟩
    exact ⟨e, ⟨he, hkey⟩, by rw [(hentry e he).1, List.mem_singleton]⟩

/-- A plain map leaves the connection to `dump`. -/
theorem HeaderMap.Plain.connection {m : HeaderMap} (h : m.Plain) :
    [] ∉ m.lines ∧ ∀ l ∈ m.lines, isLineOf "connection" l = false := by
  constructor
  · intro hmem
    obtain ⟨e, -, -, hl, -⟩ := h.mem_lines.mp hmem
    have hsep : ascii ": " = [58, 32] := by decide
    simp [entryText, hsep] at hl
  · intro l hl
    obtain ⟨e, -, hkey, -, hname⟩ := h.mem_lines.mp hl
    rw [isLineOf, hname, hkey]

/-- It leaves the length to `dump` exactly when no header has that name. -/
theorem HeaderMap.Plain.leavesLength_iff {m : HeaderMap} (h : m.Plain) (body : Bytes) :
    LeavesLength m.lines body ↔ ∀ e ∈ m, sameKey e.1 (ascii "content-length") = false := by
  rw [LeavesLength, if_neg h.connection.1]
  constructor
  · intro hall e he
    by_contra hkey
    rw [Bool.not_eq_false, sameKey_iff] at hkey
    have hother : sameKey e.1 (ascii "connection") = false := by
      rw [Bool.eq_false_iff, Ne, sameKey_iff, hkey]
      decide
    have hname : lineName (entryText e) = e.1 := by
      have hsep : ascii ": " = [58, 32] := by decide
      have htext : entryText e = e.1 ++ 58 :: 32 :: e.2 := by simp [entryText, hsep]
      rw [htext]
      exact (takeWhile_name (h e he).2.1 _).1
    have := hall _ (h.mem_lines.mpr ⟨e, he, hother, rfl, hname⟩)
    rw [isLineOf, hname, Bool.eq_false_iff, Ne, sameKey_iff] at this
    exact this hkey
  · intro hall l hl
    obtain ⟨e, he, -, -, hname⟩ := h.mem_lines.mp hl
    rw [isLineOf, hname, hall e he]

/-- With plain headers, a request is framed exactly when it has no body or no header of the name
    of the length. -/
theorem HttpRequest.framed_plain_iff {r : HttpRequest} (h : r.OneLine) (hplain : r.headers.Plain) :
    Framed r.dump r.body ↔
      r.body = [] ∨ ∀ e ∈ r.headers, sameKey e.1 (ascii "content-length") = false := by
  obtain ⟨hblank, hconnection⟩ := hplain.connection
  rw [HttpRequest.framed_iff h, takeWhile_eq_self hblank, hplain.leavesLength_iff,
    or_iff_not_imp_left]
  exact and_iff_right hconnection

theorem HttpResponse.framed_plain_iff {r : HttpResponse} (h : r.OneLine)
    (hplain : r.headers.Plain) :
    Framed r.dump r.body ↔
      r.body = [] ∨ ∀ e ∈ r.headers, sameKey e.1 (ascii "content-length") = false := by
  obtain ⟨hblank, hconnection⟩ := hplain.connection
  rw [HttpResponse.framed_iff h, LeavesConnection, if_neg hblank, hplain.leavesLength_iff,
    or_iff_not_imp_left]
  exact and_iff_right hconnection

/-- What `dump` writes is framed exactly when the lines of the header map leave the connection and
    the length of the body to the lines that `dump` adds. -/
theorem dump_framed_iff (q : HttpRequest) (r : HttpResponse) :
    (q.Built → (Framed q.dump q.body ↔
      (∀ l ∈ q.headers.lines.takeWhile (· ≠ []), isLineOf "connection" l = false) ∧
        (q.body ≠ [] → LeavesLength q.headers.lines q.body))) ∧
    (r.Built → (Framed r.dump r.body ↔
      LeavesConnection r.headers.lines ∧
        (r.body ≠ [] → LeavesLength r.headers.lines r.body))) :=
  ⟨fun h => HttpRequest.framed_iff h.oneLine, fun h => HttpResponse.framed_iff h.oneLine⟩

/-- A response with a header for the connection, and a body. -/
def exampleResponse : HttpResponse :=
  ((({} : HttpResponse).setHeader (ascii "Connection") (ascii "close")).setHeader
    (ascii "Server") (ascii "a: b")).setBody (ascii "hi")

theorem dump_framed_response :
    exampleResponse.Built ∧ Framed exampleResponse.dump exampleResponse.body := by
  have hbuilt : exampleResponse.Built :=
    .setBody (.setHeader (.setHeader (.new 0x11 true) _ _) _ _) _
  refine ⟨hbuilt, ((dump_framed_iff {} exampleResponse).2 hbuilt).mpr ⟨?_, fun _ => ?_⟩⟩
  · rw [LeavesConnection, if_neg (by decide)]
    decide
  · rw [LeavesLength, if_neg (by decide)]
    decide

/-- A client that forwards a length gives a request two of them. -/
def exampleForwarded : HttpRequest :=
  (({} : HttpRequest).setHeader (ascii "Content-Length") (ascii "5")).setBody (ascii "hi")

theorem two_lengths :
    exampleForwarded.Built ∧ (∀ e ∈ exampleForwarded.headers, 13 ∉ e.2 ∧ 10 ∉ e.2) ∧
      ¬ Framed exampleForwarded.dump exampleForwarded.body :=
  ⟨.setBody (.setHeader (.new 0x11 true) _ _) _, by decide, fun h =>
    absurd (h.contentLength (by decide)) (by decide)⟩

end CppServerFramework.HTTP

import CppServerFramework.HTTP.RequestTable
import CppServerFramework.Misc.Regex

/-!
# The grammar of request targets

The rules of `httprequest_parser.rl:91-198` for what stands between the method and the version,
and that the scanner reads every path, query and fragment of them.  A number in front of a group
is a letter of its own for Ragel, not a count, and a minus between two letters is a difference of
languages, not a range.
-/

namespace CppServerFramework.HTTP

namespace RequestGrammar
open Regex RequestAction

def unreserved : List (Nat × Nat) := [(65, 90), (97, 122), (48, 57), (45, 46), (95, 95), (126, 126)]

def pctEncoded : Regex := seqs [chr 37, set xdigit, set xdigit]

/-! ## Addresses -/

/-- `"1"-"9"` is `"1"` and `"0"-"4"` is `"0"`. -/
def decOctet : Regex :=
  alts [set digit, seqs [chr 49, set digit], seqs [chr 49, set digit, set digit],
    seqs [chr 50, chr 48, set digit], seqs [chr 50, chr 53, chr 48]]

def ipv4Address : Regex := seqs [decOctet, chr 46, decOctet, chr 46, decOctet, chr 46, decOctet]

def h16 : Regex := seq (set xdigit) (atMost 3 (set xdigit))

def h16Colon : Regex := seq h16 (chr 58)

def ls32 : Regex := alt (seqs [h16, chr 58, h16]) ipv4Address

def colons : Regex := seqs [chr 58, chr 58]

def ipv6Address : Regex :=
  alts [seqs [chr 6, h16Colon, ls32],
    seqs [colons, chr 5, h16Colon, ls32],
    seqs [opt h16, colons, chr 4, h16Colon, ls32],
    seqs [opt (seqs [atLeast 1 h16Colon, h16]), colons, chr 3, h16Colon, ls32],
    seqs [opt (seqs [atLeast 2 h16Colon, h16]), colons, chr 2, h16Colon, ls32],
    seqs [opt (seqs [atLeast 3 h16Colon, h16]), colons, h16, chr 58, ls32],
    seqs [opt (seqs [atLeast 4 h16Colon, h16]), colons, ls32],
    seqs [opt (seqs [atLeast 5 h16Colon, h16]), colons, h16],
    seqs [opt (seqs [atLeast 6 h16Colon, h16]), colons]]

/-! ## Paths -/

/-- Allowed when `uri_relaxed` is set. -/
def moreDelims : List (Nat × Nat) := [(94, 94), (123, 123), (125, 125)]

def subDelims : List (Nat × Nat) :=
  [(33, 33), (36, 36), (38, 44), (59, 59), (61, 61)] ++ moreDelims

def pchar : Regex :=
  alt (set ([(128, 255)] ++ unreserved ++ subDelims ++ [(58, 58), (64, 64)])) pctEncoded

def fragment : Regex := star (alt pchar (set [(47, 47), (63, 63)]))

def query : Regex := star (alt pchar (set [(47, 47), (63, 63)]))

def segmentNzNc : Regex :=
  plus (alt (set (unreserved ++ subDelims ++ [(64, 64)])) pctEncoded)

def segmentNz : Regex := plus pchar

def segment : Regex := star pchar

/-- `( "/" segment )*` -/
def pathAbempty : Regex := star (seq (chr 47) segment)

def pathEmpty : Regex := eps

def pathRootless : Regex := seq segmentNz pathAbempty

def pathNoscheme : Regex := seq segmentNzNc pathAbempty

def pathAbsolute : Regex :=
  seq (chr 47) (opt (seq segmentNz pathAbempty))

def path : Regex :=
  alts [pathAbempty, pathAbsolute, pathNoscheme,
    pathRootless, pathEmpty]

def regName : Regex := star (alt (set (unreserved ++ subDelims)) pctEncoded)

def ipvFuture : Regex :=
  seqs [chr 118, plus (set xdigit), chr 46,
    plus (set (unreserved ++ subDelims ++ [(58, 58)]))]

def ipLiteral : Regex := seqs [chr 91, alt ipv6Address (ipvFuture), chr 93]

def port : Regex := star (set digit)

def host : Regex := alts [ipLiteral, ipv4Address, regName]

def userinfo : Regex :=
  star (alt (set (unreserved ++ subDelims ++ [(58, 58)])) pctEncoded)

def authority : Regex :=
  seqs [opt (seqs [userinfo, chr 64]), host, opt (seqs [chr 58, port])]

def relativePart : Regex :=
  alts [seqs [chr 47, chr 47, authority, pathAbempty],
    pathAbsolute, pathNoscheme, pathEmpty]

/-! ## Methods and headers -/

def method : Regex := seq (set RequestRow.upperDigit) (atMost 19 (set RequestRow.upperDigit))

/-- `token+`, but not beginning with a line end, which would be the end of the head.  `HTTP_CTL`
    is the bytes `0` and `127` only. -/
def fieldName : Regex :=
  alt (seq (set ((1, 8) :: (11, 12) :: (14, 31) :: RequestRow.token.drop 2))
      (star (set RequestRow.token)))
    (seq (chr 13)
      (opt (seq (set ((1, 8) :: (11, 31) :: RequestRow.token.drop 2))
        (star (set RequestRow.token)))))

/-- The text of a header behind the blanks: no line end, no `HTTP_CTL`, and no blank to begin
    with. -/
def fieldValue : Regex :=
  opt (seq (set [(1, 8), (11, 12), (14, 31), (33, 126), (128, 255)])
    (star (set [(1, 9), (11, 12), (14, 126), (128, 255)])))

/-! ## The scanner -/

/-- A path may end in the state. -/
def pathExits (M : Scanner RequestAction) (s : Nat) : Bool :=
  M.next s 32 = (4, [requestPath, requestUri]) && M.next s 35 = (20, [requestPath, requestUri]) &&
    M.next s 63 = (29, [requestPath])

def queryExits (M : Scanner RequestAction) (s : Nat) : Bool :=
  M.next s 32 = (4, [queryString, requestUri]) && M.next s 35 = (20, [queryString, requestUri])

def fragmentExits (M : Scanner RequestAction) (s : Nat) : Bool :=
  M.next s 32 = (4, [RequestAction.fragment])

def methodExits (M : Scanner RequestAction) (s : Nat) : Bool := M.next s 32 = (3, [requestMethod])

def nameExits (M : Scanner RequestAction) (s : Nat) : Bool := M.next s 58 = (15, [writeField])

def valueExits (M : Scanner RequestAction) (s : Nat) : Bool := M.next s 13 = (17, [writeValue])

/-- The rows stand in the order of their states. -/
theorem rows_states : RequestRow.rows.map RequestRow.state = List.range' 1 349 := by
  decide +kernel

/-- The scanner, with a row looked up at its place. -/
def indexedScanner (uriRelaxed : Bool) : Scanner RequestAction where
  start := 1
  firstFinal := 348
  breaks a := a = .done
  row s :=
    match s with
    | 0 => ⟨[], 0, []⟩
    | s + 1 =>
      match RequestRow.rows[s]? with
      | some r => r.toRow uriRelaxed
      | none => ⟨[], 0, []⟩

theorem find?_of_map_eq_range' {rows : List RequestRow} {n k : Nat}
    (h : rows.map RequestRow.state = List.range' n k) (s : Nat) :
    (rows.find? fun r => r.state = n + s) = rows[s]? := by
  induction rows generalizing n k s with
  | nil => rfl
  | cons r rows ih =>
    cases k with
    | zero => cases h
    | succ k =>
      rw [List.map_cons, List.range'_succ, List.cons.injEq] at h
      rw [List.find?_cons, h.1]
      cases s with
      | zero => simp
      | succ s =>
        rw [List.getElem?_cons_succ, ← ih h.2 s]
        simp [Nat.add_assoc, Nat.add_comm 1 s]

theorem indexedScanner_eq (uriRelaxed : Bool) :
    httpParserScanner uriRelaxed = indexedScanner uriRelaxed := by
  rw [httpParserScanner, indexedScanner]
  congr
  funext s
  cases s with
  | zero =>
    have hnone : (RequestRow.rows.find? fun r => r.state = 0) = none := by
      refine List.find?_eq_none.mpr fun r hr => ?_
      have hmem : r.state ∈ List.range' 1 349 := rows_states ▸ List.mem_map_of_mem hr
      simp only [List.mem_range'_1] at hmem
      simp only [decide_eq_true_eq]
      omega
    rw [hnone]
  | succ s =>
    have hfind := find?_of_map_eq_range' rows_states s
    rw [Nat.add_comm 1 s] at hfind
    rewrite [hfind]
    rfl

/-- A part of a target, with the actions at its first byte and the states in which it may end,
    whose texts the scanner for relaxed URIs reads. -/
structure TargetPart where
  start : Nat
  acts : List RequestAction
  exits : Scanner RequestAction → Nat → Bool
  texts : Regex
  reads : (indexedScanner true).reads 4000 acts (exits (indexedScanner true)) start texts = true

theorem reads_target :
    (indexedScanner true).reads 4000 [mark] (pathExits (indexedScanner true)) 3
        relativePart = true ∧
      (indexedScanner true).reads 4000 [startQuery] (queryExits (indexedScanner true)) 29
        query = true ∧
      (indexedScanner true).reads 4000 [mark] (fragmentExits (indexedScanner true)) 20
        fragment = true := by
  decide +kernel

def pathPart : TargetPart := ⟨3, [mark], pathExits, relativePart, reads_target.1⟩

def queryPart : TargetPart := ⟨29, [startQuery], queryExits, query, reads_target.2.1⟩

def fragmentPart : TargetPart := ⟨20, [mark], fragmentExits, fragment, reads_target.2.2⟩

/-- The method, and the name and the value of a header. -/
theorem reads_words (uriRelaxed : Bool) :
    (indexedScanner uriRelaxed).reads 100 [mark] (methodExits (indexedScanner uriRelaxed)) 1
        method = true ∧
      (indexedScanner uriRelaxed).reads 100 [startField] (nameExits (indexedScanner uriRelaxed)) 13
        fieldName = true ∧
      (indexedScanner uriRelaxed).reads 100 [startValue] (valueExits (indexedScanner uriRelaxed)) 15
        fieldValue = true := by
  cases uriRelaxed <;> decide +kernel

/-- Only the bytes of `more_delims` tell a scanner for relaxed URIs from another. -/
theorem next_relaxed {b : UInt8} (h : inRanges moreDelims b = false) (uriRelaxed : Bool) (s : Nat) :
    (httpParserScanner true).next s b = (httpParserScanner uriRelaxed).next s b := by
  cases uriRelaxed with
  | true => rfl
  | false =>
    simp only [Scanner.next, httpParserScanner]
    cases RequestRow.rows.find? fun r => r.state = s with
    | none => rfl
    | some r =>
      cases hr : r.relaxed with
      | none => simp [RequestRow.toRow, hr]
      | some x =>
        have hcov : (⟨[(94, 94), (123, 123), (125, 125)], x.1, x.2⟩ :
            Edge RequestAction).covers b = false := h
        simp [RequestRow.toRow, hr, List.find?_append, hcov]

/-- The bytes of a text are allowed as `uri_relaxed` is set. -/
def Allowed (uriRelaxed : Bool) (w : List UInt8) : Prop :=
  uriRelaxed = true ∨ ∀ b ∈ w, inRanges moreDelims b = false

section

variable {uriRelaxed : Bool} {w : List UInt8}

/-- What the check says of the scanner for relaxed URIs holds of both on an allowed text. -/
theorem TargetPart.read (part : TargetPart)
    (hacts : part.acts.any (httpParserScanner true).breaks = false) (hw : w ∈ part.texts.language)
    (hallowed : Allowed uriRelaxed w) (hne : w ≠ []) :
    ∃ t, (httpParserScanner uriRelaxed).passes part.start w = some t ∧
      (∀ p, ((httpParserScanner uriRelaxed).scan part.start p w).events =
        part.acts.map fun a => (p, a)) ∧
      part.exits (httpParserScanner true) t = true := by
  have h := part.reads
  rw [← indexedScanner_eq] at h
  obtain ⟨t, hpass, hevents, hexit⟩ := Scanner.reads_spec h hacts hw hne
  have hnext : ∀ s, ∀ b ∈ w,
      (httpParserScanner true).next s b = (httpParserScanner uriRelaxed).next s b := by
    intro s b hb
    rcases hallowed with rfl | hall
    · rfl
    · exact next_relaxed (hall b hb) uriRelaxed s
  have hbreaks : (httpParserScanner true).breaks = (httpParserScanner uriRelaxed).breaks := rfl
  refine ⟨t, ?_, fun p => ?_, hexit⟩
  · rw [← Scanner.passes_congr hbreaks hnext, hpass]
  · rw [← Scanner.scan_congr hbreaks hnext, hevents]

theorem path_read (hw : w ∈ relativePart.language) (hallowed : Allowed uriRelaxed w)
    (hne : w ≠ []) : ∃ t, (httpParserScanner uriRelaxed).passes 3 w = some t ∧
      (∀ p, ((httpParserScanner uriRelaxed).scan 3 p w).events = [(p, mark)]) ∧
      pathExits (httpParserScanner uriRelaxed) t = true := by
  obtain ⟨t, hpass, hevents, hexit⟩ := pathPart.read rfl hw hallowed hne
  refine ⟨t, hpass, hevents, ?_⟩
  have h : ∀ b, inRanges moreDelims b = false → _ := fun b hb => next_relaxed hb uriRelaxed t
  rwa [show pathPart.exits = pathExits from rfl, pathExits, h 32 rfl, h 35 rfl, h 63 rfl] at hexit

theorem query_read (hw : w ∈ query.language) (hallowed : Allowed uriRelaxed w) (hne : w ≠ []) :
    ∃ t, (httpParserScanner uriRelaxed).passes 29 w = some t ∧
      (∀ p, ((httpParserScanner uriRelaxed).scan 29 p w).events = [(p, startQuery)]) ∧
      queryExits (httpParserScanner uriRelaxed) t = true := by
  obtain ⟨t, hpass, hevents, hexit⟩ := queryPart.read rfl hw hallowed hne
  refine ⟨t, hpass, hevents, ?_⟩
  have h : ∀ b, inRanges moreDelims b = false → _ := fun b hb => next_relaxed hb uriRelaxed t
  rwa [show queryPart.exits = queryExits from rfl, queryExits, h 32 rfl, h 35 rfl] at hexit

theorem fragment_read (hw : w ∈ fragment.language) (hallowed : Allowed uriRelaxed w)
    (hne : w ≠ []) : ∃ t, (httpParserScanner uriRelaxed).passes 20 w = some t ∧
      (∀ p, ((httpParserScanner uriRelaxed).scan 20 p w).events = [(p, mark)]) ∧
      fragmentExits (httpParserScanner uriRelaxed) t = true := by
  obtain ⟨t, hpass, hevents, hexit⟩ := fragmentPart.read rfl hw hallowed hne
  refine ⟨t, hpass, hevents, ?_⟩
  rwa [show fragmentPart.exits = fragmentExits from rfl, fragmentExits,
    next_relaxed rfl uriRelaxed t] at hexit

theorem method_read (uriRelaxed : Bool) {w : List UInt8} (hw : w ∈ method.language) (hne : w ≠ []) :
    ∃ t, (httpParserScanner uriRelaxed).passes 1 w = some t ∧
      (∀ p, ((httpParserScanner uriRelaxed).scan 1 p w).events = [(p, mark)]) ∧
      methodExits (httpParserScanner uriRelaxed) t = true := by
  rw [indexedScanner_eq]
  exact Scanner.reads_spec (reads_words uriRelaxed).1 rfl hw hne

theorem fieldName_read (uriRelaxed : Bool) {w : List UInt8}
    (hw : w ∈ fieldName.language) (hne : w ≠ []) :
    ∃ t, (httpParserScanner uriRelaxed).passes 13 w = some t ∧
      (∀ p, ((httpParserScanner uriRelaxed).scan 13 p w).events = [(p, startField)]) ∧
      nameExits (httpParserScanner uriRelaxed) t = true := by
  rw [indexedScanner_eq]
  exact Scanner.reads_spec (reads_words uriRelaxed).2.1 rfl hw hne

theorem fieldValue_read (uriRelaxed : Bool) {w : List UInt8}
    (hw : w ∈ fieldValue.language) (hne : w ≠ []) :
    ∃ t, (httpParserScanner uriRelaxed).passes 15 w = some t ∧
      (∀ p, ((httpParserScanner uriRelaxed).scan 15 p w).events = [(p, startValue)]) ∧
      valueExits (httpParserScanner uriRelaxed) t = true := by
  rw [indexedScanner_eq]
  exact Scanner.reads_spec (reads_words uriRelaxed).2.2 rfl hw hne

end

end RequestGrammar

end CppServerFramework.HTTP

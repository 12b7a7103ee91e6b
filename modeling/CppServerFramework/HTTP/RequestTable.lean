import CppServerFramework.Misc.Scanner

/-!
# The scanner of HTTP requests

The table that Ragel has generated from `httprequest_parser.rl` (`httprequest_parser.cpp`), state
by state: the transitions of `_http_parser_trans_keys`, `_http_parser_indicies`,
`_http_parser_trans_targs` and `_http_parser_trans_actions`, in the order in which they are
searched.  The condition of `_http_parser_cond_keys` is always `uri_relaxed` on the bytes `^`,
`{` and `}`.
-/

namespace CppServerFramework.HTTP

/-- The actions of `httprequest_parser.rl:16-87`, as numbered in `_http_parser_actions`. -/
inductive RequestAction where
  | mark
  | startField
  | writeField
  | startValue
  | writeValue
  | requestMethod
  | requestUri
  | fragment
  | startQuery
  | queryString
  | httpVersion
  | requestPath
  | done
  | xml
  | json
  deriving DecidableEq, Repr

/-- A row of the table; the bytes `^`, `{` and `}` may have a transition for relaxed URIs only. -/
structure RequestRow where
  state : Nat
  edges : List (Edge RequestAction)
  relaxed : Option (Nat × List RequestAction) := none
  default : Nat × List RequestAction := (0, [])

namespace RequestRow

def row (s : Nat) (edges : List (Edge RequestAction)) : RequestRow :=
  { state := s, edges := edges }

def relaxedRow (s : Nat) (relaxed : Nat × List RequestAction)
    (edges : List (Edge RequestAction)) : RequestRow :=
  { state := s, edges := edges, relaxed := some relaxed }

def defaultRow (s : Nat) (default : Nat × List RequestAction)
    (edges : List (Edge RequestAction)) : RequestRow :=
  { state := s, edges := edges, default := default }

/-- The transitions as `uri_relaxed` is set or not. -/
def toRow (r : RequestRow) (uriRelaxed : Bool) : Row RequestAction where
  edges :=
    match r.relaxed with
    | some (t, acts) =>
      if uriRelaxed then r.edges ++ [⟨[(94, 94), (123, 123), (125, 125)], t, acts⟩] else r.edges
    | none => r.edges
  default := r.default

end RequestRow

/-! ## Classes of bytes -/

def one (b : Nat) : List (Nat × Nat) := [(b, b)]

def digit : List (Nat × Nat) := [(48, 57)]

def xalpha : List (Nat × Nat) := [(65, 70), (97, 102)]

def xdigit : List (Nat × Nat) := [(48, 57), (65, 70), (97, 102)]

namespace RequestRow

def upperDigit : List (Nat × Nat) := [(48, 57), (65, 90)]

/-- `unreserved` or `sub_delims`. -/
def regChar : List (Nat × Nat) :=
  [(33, 33), (36, 36), (38, 46), (48, 57), (59, 59), (61, 61), (65, 90), (95, 95), (97, 122),
    (126, 126)]

def userinfoChar : List (Nat × Nat) := regChar ++ one 58

def segmentNc : List (Nat × Nat) := regChar ++ one 64

/-- Bytes from 128 on are allowed in paths and queries. -/
def pchar : List (Nat × Nat) := regChar ++ [(58, 58), (64, 64), (128, 255)]

def pathChar : List (Nat × Nat) := pchar ++ one 47

def queryChar : List (Nat × Nat) := pchar ++ [(47, 47), (63, 63)]

/-- `HTTP_CTL` holds the bytes `0` and `127` only, so a token may have control characters. -/
def token : List (Nat × Nat) :=
  [(1, 8), (10, 31), (33, 33), (35, 39), (42, 43), (45, 46), (48, 57), (65, 90), (94, 122),
    (124, 124), (126, 126)]

open RequestAction

def rows : List RequestRow :=
  [row 1 [⟨one 60, 194, [mark]⟩, ⟨one 64, 198, [mark]⟩, ⟨upperDigit, 2, [mark]⟩],
  row 2 [⟨one 32, 3, [requestMethod]⟩, ⟨upperDigit, 175, []⟩],
  relaxedRow 3 (19, [mark]) [⟨one 32, 4, [mark, requestPath, requestUri]⟩,
      ⟨one 35, 20, [mark, requestPath, requestUri]⟩, ⟨one 37, 24, [mark]⟩, ⟨one 47, 33, [mark]⟩,
      ⟨one 63, 29, [mark, requestPath]⟩,
      ⟨[(33, 33), (36, 36), (38, 46), (48, 57), (59, 59), (61, 61), (64, 64), (95, 95),
        (126, 126)], 19, [mark]⟩,
      ⟨regChar, 173, [mark]⟩],
  row 4 [⟨one 72, 5, [mark]⟩],
  row 5 [⟨one 84, 6, []⟩],
  row 6 [⟨one 84, 7, []⟩],
  row 7 [⟨one 80, 8, []⟩],
  row 8 [⟨one 47, 9, []⟩],
  row 9 [⟨one 49, 10, []⟩],
  row 10 [⟨one 46, 11, []⟩],
  row 11 [⟨[(48, 49)], 12, []⟩],
  row 12 [⟨one 10, 13, [httpVersion]⟩, ⟨one 13, 17, [httpVersion]⟩],
  row 13 [⟨one 10, 348, [startField, done]⟩, ⟨one 13, 18, [startField]⟩, ⟨token, 14, [startField]⟩],
  row 14 [⟨one 58, 15, [writeField]⟩, ⟨token, 14, []⟩],
  defaultRow 15 (16, [startValue]) [⟨one 10, 13, [startValue, writeValue]⟩,
      ⟨one 13, 17, [startValue, writeValue]⟩, ⟨[(0, 0), (127, 127)], 0, []⟩,
      ⟨[(9, 9), (32, 32)], 15, [startValue]⟩],
  defaultRow 16 (16, []) [⟨one 10, 13, [writeValue]⟩, ⟨one 13, 17, [writeValue]⟩,
      ⟨[(0, 0), (127, 127)], 0, []⟩],
  row 17 [⟨one 10, 13, []⟩],
  row 18 [⟨one 10, 348, [done]⟩, ⟨one 58, 15, [writeField]⟩, ⟨token, 14, []⟩],
  relaxedRow 19 (19, []) [⟨one 32, 4, [requestPath, requestUri]⟩,
      ⟨one 35, 20, [requestPath, requestUri]⟩, ⟨one 37, 24, []⟩, ⟨one 47, 26, []⟩,
      ⟨one 63, 29, [requestPath]⟩, ⟨segmentNc, 19, []⟩],
  relaxedRow 20 (21, [mark]) [⟨one 32, 4, [mark, fragment]⟩, ⟨one 37, 22, [mark]⟩,
      ⟨queryChar, 21, [mark]⟩],
  relaxedRow 21 (21, []) [⟨one 32, 4, [fragment]⟩, ⟨one 37, 22, []⟩, ⟨queryChar, 21, []⟩],
  row 22 [⟨xdigit, 23, []⟩],
  row 23 [⟨xdigit, 21, []⟩],
  row 24 [⟨xdigit, 25, []⟩],
  row 25 [⟨xdigit, 19, []⟩],
  relaxedRow 26 (26, []) [⟨one 32, 4, [requestPath, requestUri]⟩,
      ⟨one 35, 20, [requestPath, requestUri]⟩, ⟨one 37, 27, []⟩, ⟨one 63, 29, [requestPath]⟩,
      ⟨pathChar, 26, []⟩],
  row 27 [⟨xdigit, 28, []⟩],
  row 28 [⟨xdigit, 26, []⟩],
  relaxedRow 29 (30, [startQuery]) [⟨one 32, 4, [startQuery, queryString, requestUri]⟩,
      ⟨one 35, 20, [startQuery, queryString, requestUri]⟩, ⟨one 37, 31, [startQuery]⟩,
      ⟨queryChar, 30, [startQuery]⟩],
  relaxedRow 30 (30, []) [⟨one 32, 4, [queryString, requestUri]⟩,
      ⟨one 35, 20, [queryString, requestUri]⟩, ⟨one 37, 31, []⟩, ⟨queryChar, 30, []⟩],
  row 31 [⟨xdigit, 32, []⟩],
  row 32 [⟨xdigit, 30, []⟩],
  relaxedRow 33 (26, []) [⟨one 32, 4, [requestPath, requestUri]⟩,
      ⟨one 35, 20, [requestPath, requestUri]⟩, ⟨one 37, 27, []⟩, ⟨one 47, 34, []⟩,
      ⟨one 63, 29, [requestPath]⟩, ⟨pchar, 26, []⟩],
  relaxedRow 34 (35, []) [⟨one 32, 4, [requestPath, requestUri]⟩,
      ⟨one 35, 20, [requestPath, requestUri]⟩, ⟨one 37, 36, []⟩, ⟨one 47, 26, []⟩, ⟨one 58, 38, []⟩,
      ⟨one 63, 29, [requestPath]⟩, ⟨one 64, 42, []⟩, ⟨one 91, 47, []⟩, ⟨regChar, 35, []⟩],
  relaxedRow 35 (35, []) [⟨one 32, 4, [requestPath, requestUri]⟩,
      ⟨one 35, 20, [requestPath, requestUri]⟩, ⟨one 37, 36, []⟩, ⟨one 47, 26, []⟩, ⟨one 58, 38, []⟩,
      ⟨one 63, 29, [requestPath]⟩, ⟨one 64, 42, []⟩, ⟨regChar, 35, []⟩],
  row 36 [⟨xdigit, 37, []⟩],
  row 37 [⟨xdigit, 35, []⟩],
  relaxedRow 38 (39, []) [⟨one 32, 4, [requestPath, requestUri]⟩,
      ⟨one 35, 20, [requestPath, requestUri]⟩, ⟨one 37, 40, []⟩, ⟨one 47, 26, []⟩,
      ⟨one 63, 29, [requestPath]⟩, ⟨one 64, 42, []⟩, ⟨digit, 38, []⟩, ⟨userinfoChar, 39, []⟩],
  relaxedRow 39 (39, []) [⟨one 37, 40, []⟩, ⟨one 64, 42, []⟩, ⟨userinfoChar, 39, []⟩],
  row 40 [⟨xdigit, 41, []⟩],
  row 41 [⟨xdigit, 39, []⟩],
  relaxedRow 42 (43, []) [⟨one 32, 4, [requestPath, requestUri]⟩,
      ⟨one 35, 20, [requestPath, requestUri]⟩, ⟨one 37, 44, []⟩, ⟨one 47, 26, []⟩, ⟨one 58, 46, []⟩,
      ⟨one 63, 29, [requestPath]⟩, ⟨one 91, 47, []⟩, ⟨regChar, 43, []⟩],
  relaxedRow 43 (43, []) [⟨one 32, 4, [requestPath, requestUri]⟩,
      ⟨one 35, 20, [requestPath, requestUri]⟩, ⟨one 37, 44, []⟩, ⟨one 47, 26, []⟩, ⟨one 58, 46, []⟩,
      ⟨one 63, 29, [requestPath]⟩, ⟨regChar, 43, []⟩],
  row 44 [⟨xdigit, 45, []⟩],
  row 45 [⟨xdigit, 43, []⟩],
  row 46 [⟨one 32, 4, [requestPath, requestUri]⟩, ⟨one 35, 20, [requestPath, requestUri]⟩,
      ⟨one 47, 26, []⟩, ⟨one 63, 29, [requestPath]⟩, ⟨digit, 46, []⟩],
  row 47 [⟨one 6, 48, []⟩, ⟨one 58, 167, []⟩, ⟨one 118, 169, []⟩, ⟨xdigit, 91, []⟩],
  row 48 [⟨xdigit, 49, []⟩],
  row 49 [⟨one 58, 53, []⟩, ⟨xdigit, 50, []⟩],
  row 50 [⟨one 58, 53, []⟩, ⟨xdigit, 51, []⟩],
  row 51 [⟨one 58, 53, []⟩, ⟨xdigit, 52, []⟩],
  row 52 [⟨one 58, 53, []⟩],
  row 53 [⟨one 49, 84, []⟩, ⟨one 50, 87, []⟩, ⟨digit, 54, []⟩, ⟨xalpha, 90, []⟩],
  row 54 [⟨one 46, 55, []⟩, ⟨one 58, 80, []⟩, ⟨xdigit, 77, []⟩],
  row 55 [⟨one 49, 72, []⟩, ⟨one 50, 74, []⟩, ⟨digit, 56, []⟩],
  row 56 [⟨one 46, 57, []⟩],
  row 57 [⟨one 49, 67, []⟩, ⟨one 50, 69, []⟩, ⟨digit, 58, []⟩],
  row 58 [⟨one 46, 59, []⟩],
  row 59 [⟨one 49, 62, []⟩, ⟨one 50, 64, []⟩, ⟨digit, 60, []⟩],
  row 60 [⟨one 93, 61, []⟩],
  row 61 [⟨one 32, 4, [requestPath, requestUri]⟩, ⟨one 35, 20, [requestPath, requestUri]⟩,
      ⟨one 47, 26, []⟩, ⟨one 58, 46, []⟩, ⟨one 63, 29, [requestPath]⟩],
  row 62 [⟨one 93, 61, []⟩, ⟨digit, 63, []⟩],
  row 63 [⟨one 93, 61, []⟩, ⟨digit, 60, []⟩],
  row 64 [⟨one 48, 65, []⟩, ⟨one 53, 66, []⟩, ⟨one 93, 61, []⟩],
  row 65 [⟨digit, 60, []⟩],
  row 66 [⟨one 48, 60, []⟩],
  row 67 [⟨one 46, 59, []⟩, ⟨digit, 68, []⟩],
  row 68 [⟨one 46, 59, []⟩, ⟨digit, 58, []⟩],
  row 69 [⟨one 46, 59, []⟩, ⟨one 48, 70, []⟩, ⟨one 53, 71, []⟩],
  row 70 [⟨digit, 58, []⟩],
  row 71 [⟨one 48, 58, []⟩],
  row 72 [⟨one 46, 57, []⟩, ⟨digit, 73, []⟩],
  row 73 [⟨one 46, 57, []⟩, ⟨digit, 56, []⟩],
  row 74 [⟨one 46, 57, []⟩, ⟨one 48, 75, []⟩, ⟨one 53, 76, []⟩],
  row 75 [⟨digit, 56, []⟩],
  row 76 [⟨one 48, 56, []⟩],
  row 77 [⟨one 58, 80, []⟩, ⟨xdigit, 78, []⟩],
  row 78 [⟨one 58, 80, []⟩, ⟨xdigit, 79, []⟩],
  row 79 [⟨one 58, 80, []⟩],
  row 80 [⟨xdigit, 81, []⟩],
  row 81 [⟨one 93, 61, []⟩, ⟨xdigit, 82, []⟩],
  row 82 [⟨one 93, 61, []⟩, ⟨xdigit, 83, []⟩],
  row 83 [⟨one 93, 61, []⟩, ⟨xdigit, 60, []⟩],
  row 84 [⟨one 46, 55, []⟩, ⟨one 58, 80, []⟩, ⟨digit, 85, []⟩, ⟨xalpha, 77, []⟩],
  row 85 [⟨one 46, 55, []⟩, ⟨one 58, 80, []⟩, ⟨digit, 86, []⟩, ⟨xalpha, 78, []⟩],
  row 86 [⟨one 46, 55, []⟩, ⟨one 58, 80, []⟩, ⟨xdigit, 79, []⟩],
  row 87 [⟨one 46, 55, []⟩, ⟨one 48, 88, []⟩, ⟨one 53, 89, []⟩, ⟨one 58, 80, []⟩, ⟨xdigit, 77, []⟩],
  row 88 [⟨one 58, 80, []⟩, ⟨digit, 86, []⟩, ⟨xalpha, 78, []⟩],
  row 89 [⟨one 48, 86, []⟩, ⟨one 58, 80, []⟩, ⟨xdigit, 78, []⟩],
  row 90 [⟨one 58, 80, []⟩, ⟨xdigit, 77, []⟩],
  row 91 [⟨one 58, 95, []⟩, ⟨xdigit, 92, []⟩],
  row 92 [⟨one 58, 95, []⟩, ⟨xdigit, 93, []⟩],
  row 93 [⟨one 58, 95, []⟩, ⟨xdigit, 94, []⟩],
  row 94 [⟨one 58, 95, []⟩],
  row 95 [⟨one 58, 166, []⟩, ⟨xdigit, 96, []⟩],
  row 96 [⟨one 58, 100, []⟩, ⟨xdigit, 97, []⟩],
  row 97 [⟨one 58, 100, []⟩, ⟨xdigit, 98, []⟩],
  row 98 [⟨one 58, 100, []⟩, ⟨xdigit, 99, []⟩],
  row 99 [⟨one 58, 100, []⟩],
  row 100 [⟨one 58, 165, []⟩, ⟨xdigit, 101, []⟩],
  row 101 [⟨one 58, 105, []⟩, ⟨xdigit, 102, []⟩],
  row 102 [⟨one 58, 105, []⟩, ⟨xdigit, 103, []⟩],
  row 103 [⟨one 58, 105, []⟩, ⟨xdigit, 104, []⟩],
  row 104 [⟨one 58, 105, []⟩],
  row 105 [⟨one 58, 164, []⟩, ⟨xdigit, 106, []⟩],
  row 106 [⟨one 58, 110, []⟩, ⟨xdigit, 107, []⟩],
  row 107 [⟨one 58, 110, []⟩, ⟨xdigit, 108, []⟩],
  row 108 [⟨one 58, 110, []⟩, ⟨xdigit, 109, []⟩],
  row 109 [⟨one 58, 110, []⟩],
  row 110 [⟨one 58, 163, []⟩, ⟨xdigit, 111, []⟩],
  row 111 [⟨one 58, 115, []⟩, ⟨xdigit, 112, []⟩],
  row 112 [⟨one 58, 115, []⟩, ⟨xdigit, 113, []⟩],
  row 113 [⟨one 58, 115, []⟩, ⟨xdigit, 114, []⟩],
  row 114 [⟨one 58, 115, []⟩],
  row 115 [⟨one 58, 151, []⟩, ⟨xdigit, 116, []⟩],
  row 116 [⟨one 58, 120, []⟩, ⟨xdigit, 117, []⟩],
  row 117 [⟨one 58, 120, []⟩, ⟨xdigit, 118, []⟩],
  row 118 [⟨one 58, 120, []⟩, ⟨xdigit, 119, []⟩],
  row 119 [⟨one 58, 120, []⟩],
  row 120 [⟨one 58, 150, []⟩, ⟨xdigit, 121, []⟩],
  row 121 [⟨one 58, 125, []⟩, ⟨xdigit, 122, []⟩],
  row 122 [⟨one 58, 125, []⟩, ⟨xdigit, 123, []⟩],
  row 123 [⟨one 58, 125, []⟩, ⟨xdigit, 124, []⟩],
  row 124 [⟨one 58, 125, []⟩],
  row 125 [⟨one 58, 126, []⟩, ⟨xdigit, 121, []⟩],
  row 126 [⟨one 49, 143, []⟩, ⟨one 50, 146, []⟩, ⟨one 93, 61, []⟩, ⟨[(2, 3)], 48, []⟩,
      ⟨digit, 127, []⟩, ⟨xalpha, 149, []⟩],
  row 127 [⟨one 46, 55, []⟩, ⟨one 58, 131, []⟩, ⟨one 93, 61, []⟩, ⟨xdigit, 128, []⟩],
  row 128 [⟨one 58, 131, []⟩, ⟨one 93, 61, []⟩, ⟨xdigit, 129, []⟩],
  row 129 [⟨one 58, 131, []⟩, ⟨one 93, 61, []⟩, ⟨xdigit, 130, []⟩],
  row 130 [⟨one 58, 131, []⟩, ⟨one 93, 61, []⟩],
  row 131 [⟨one 49, 136, []⟩, ⟨one 50, 139, []⟩, ⟨digit, 132, []⟩, ⟨xalpha, 142, []⟩],
  row 132 [⟨one 46, 55, []⟩, ⟨one 58, 80, []⟩, ⟨one 93, 61, []⟩, ⟨xdigit, 133, []⟩],
  row 133 [⟨one 58, 80, []⟩, ⟨one 93, 61, []⟩, ⟨xdigit, 134, []⟩],
  row 134 [⟨one 58, 80, []⟩, ⟨one 93, 61, []⟩, ⟨xdigit, 135, []⟩],
  row 135 [⟨one 58, 80, []⟩, ⟨one 93, 61, []⟩],
  row 136 [⟨one 46, 55, []⟩, ⟨one 58, 80, []⟩, ⟨one 93, 61, []⟩, ⟨digit, 137, []⟩,
      ⟨xalpha, 133, []⟩],
  row 137 [⟨one 46, 55, []⟩, ⟨one 58, 80, []⟩, ⟨one 93, 61, []⟩, ⟨digit, 138, []⟩,
      ⟨xalpha, 134, []⟩],
  row 138 [⟨one 46, 55, []⟩, ⟨one 58, 80, []⟩, ⟨one 93, 61, []⟩, ⟨xdigit, 135, []⟩],
  row 139 [⟨one 46, 55, []⟩, ⟨one 48, 140, []⟩, ⟨one 53, 141, []⟩, ⟨one 58, 80, []⟩,
      ⟨one 93, 61, []⟩, ⟨xdigit, 133, []⟩],
  row 140 [⟨one 58, 80, []⟩, ⟨one 93, 61, []⟩, ⟨digit, 138, []⟩, ⟨xalpha, 134, []⟩],
  row 141 [⟨one 48, 138, []⟩, ⟨one 58, 80, []⟩, ⟨one 93, 61, []⟩, ⟨xdigit, 134, []⟩],
  row 142 [⟨one 58, 80, []⟩, ⟨one 93, 61, []⟩, ⟨xdigit, 133, []⟩],
  row 143 [⟨one 46, 55, []⟩, ⟨one 58, 131, []⟩, ⟨one 93, 61, []⟩, ⟨digit, 144, []⟩,
      ⟨xalpha, 128, []⟩],
  row 144 [⟨one 46, 55, []⟩, ⟨one 58, 131, []⟩, ⟨one 93, 61, []⟩, ⟨digit, 145, []⟩,
      ⟨xalpha, 129, []⟩],
  row 145 [⟨one 46, 55, []⟩, ⟨one 58, 131, []⟩, ⟨one 93, 61, []⟩, ⟨xdigit, 130, []⟩],
  row 146 [⟨one 46, 55, []⟩, ⟨one 48, 147, []⟩, ⟨one 53, 148, []⟩, ⟨one 58, 131, []⟩,
      ⟨one 93, 61, []⟩, ⟨xdigit, 128, []⟩],
  row 147 [⟨one 58, 131, []⟩, ⟨one 93, 61, []⟩, ⟨digit, 145, []⟩, ⟨xalpha, 129, []⟩],
  row 148 [⟨one 48, 145, []⟩, ⟨one 58, 131, []⟩, ⟨one 93, 61, []⟩, ⟨xdigit, 129, []⟩],
  row 149 [⟨one 58, 131, []⟩, ⟨one 93, 61, []⟩, ⟨xdigit, 128, []⟩],
  row 150 [⟨one 49, 143, []⟩, ⟨one 50, 146, []⟩, ⟨[(2, 3)], 48, []⟩, ⟨digit, 127, []⟩,
      ⟨xalpha, 149, []⟩],
  row 151 [⟨one 49, 156, []⟩, ⟨one 50, 159, []⟩, ⟨[(2, 3)], 48, []⟩, ⟨digit, 152, []⟩,
      ⟨xalpha, 162, []⟩],
  row 152 [⟨one 46, 55, []⟩, ⟨one 58, 131, []⟩, ⟨xdigit, 153, []⟩],
  row 153 [⟨one 58, 131, []⟩, ⟨xdigit, 154, []⟩],
  row 154 [⟨one 58, 131, []⟩, ⟨xdigit, 155, []⟩],
  row 155 [⟨one 58, 131, []⟩],
  row 156 [⟨one 46, 55, []⟩, ⟨one 58, 131, []⟩, ⟨digit, 157, []⟩, ⟨xalpha, 153, []⟩],
  row 157 [⟨one 46, 55, []⟩, ⟨one 58, 131, []⟩, ⟨digit, 158, []⟩, ⟨xalpha, 154, []⟩],
  row 158 [⟨one 46, 55, []⟩, ⟨one 58, 131, []⟩, ⟨xdigit, 155, []⟩],
  row 159 [⟨one 46, 55, []⟩, ⟨one 48, 160, []⟩, ⟨one 53, 161, []⟩, ⟨one 58, 131, []⟩,
      ⟨xdigit, 153, []⟩],
  row 160 [⟨one 58, 131, []⟩, ⟨digit, 158, []⟩, ⟨xalpha, 154, []⟩],
  row 161 [⟨one 48, 158, []⟩, ⟨one 58, 131, []⟩, ⟨xdigit, 154, []⟩],
  row 162 [⟨one 58, 131, []⟩, ⟨xdigit, 153, []⟩],
  row 163 [⟨[(2, 3)], 48, []⟩, ⟨xdigit, 49, []⟩],
  row 164 [⟨[(2, 3)], 48, []⟩],
  row 165 [⟨one 3, 48, []⟩],
  row 166 [⟨one 4, 48, []⟩],
  row 167 [⟨one 58, 168, []⟩],
  row 168 [⟨one 49, 143, []⟩, ⟨one 50, 146, []⟩, ⟨one 93, 61, []⟩, ⟨[(2, 5)], 48, []⟩,
      ⟨digit, 127, []⟩, ⟨xalpha, 149, []⟩],
  row 169 [⟨xdigit, 170, []⟩],
  row 170 [⟨one 46, 171, []⟩, ⟨xdigit, 170, []⟩],
  relaxedRow 171 (172, []) [⟨userinfoChar, 172, []⟩],
  relaxedRow 172 (172, []) [⟨one 93, 61, []⟩, ⟨userinfoChar, 172, []⟩],
  relaxedRow 173 (19, []) [⟨one 32, 4, [requestPath, requestUri]⟩,
      ⟨one 35, 20, [requestPath, requestUri]⟩, ⟨one 37, 24, []⟩, ⟨one 47, 26, []⟩,
      ⟨one 58, 174, []⟩, ⟨one 63, 29, [requestPath]⟩,
      ⟨[(33, 33), (36, 36), (38, 42), (44, 44), (59, 59), (61, 61), (64, 64), (95, 95),
        (126, 126)], 19, []⟩,
      ⟨regChar, 173, []⟩],
  relaxedRow 174 (26, [mark]) [⟨one 32, 4, [mark, requestPath, requestUri]⟩,
      ⟨one 35, 20, [mark, requestPath, requestUri]⟩, ⟨one 37, 27, [mark]⟩, ⟨one 47, 33, [mark]⟩,
      ⟨one 63, 29, [mark, requestPath]⟩, ⟨pchar, 26, [mark]⟩],
  row 175 [⟨one 32, 3, [requestMethod]⟩, ⟨upperDigit, 176, []⟩],
  row 176 [⟨one 32, 3, [requestMethod]⟩, ⟨upperDigit, 177, []⟩],
  row 177 [⟨one 32, 3, [requestMethod]⟩, ⟨upperDigit, 178, []⟩],
  row 178 [⟨one 32, 3, [requestMethod]⟩, ⟨upperDigit, 179, []⟩],
  row 179 [⟨one 32, 3, [requestMethod]⟩, ⟨upperDigit, 180, []⟩],
  row 180 [⟨one 32, 3, [requestMethod]⟩, ⟨upperDigit, 181, []⟩],
  row 181 [⟨one 32, 3, [requestMethod]⟩, ⟨upperDigit, 182, []⟩],
  row 182 [⟨one 32, 3, [requestMethod]⟩, ⟨upperDigit, 183, []⟩],
  row 183 [⟨one 32, 3, [requestMethod]⟩, ⟨upperDigit, 184, []⟩],
  row 184 [⟨one 32, 3, [requestMethod]⟩, ⟨upperDigit, 185, []⟩],
  row 185 [⟨one 32, 3, [requestMethod]⟩, ⟨upperDigit, 186, []⟩],
  row 186 [⟨one 32, 3, [requestMethod]⟩, ⟨upperDigit, 187, []⟩],
  row 187 [⟨one 32, 3, [requestMethod]⟩, ⟨upperDigit, 188, []⟩],
  row 188 [⟨one 32, 3, [requestMethod]⟩, ⟨upperDigit, 189, []⟩],
  row 189 [⟨one 32, 3, [requestMethod]⟩, ⟨upperDigit, 190, []⟩],
  row 190 [⟨one 32, 3, [requestMethod]⟩, ⟨upperDigit, 191, []⟩],
  row 191 [⟨one 32, 3, [requestMethod]⟩, ⟨upperDigit, 192, []⟩],
  row 192 [⟨one 32, 3, [requestMethod]⟩, ⟨upperDigit, 193, []⟩],
  row 193 [⟨one 32, 3, [requestMethod]⟩],
  row 194 [⟨[(45, 46), (48, 57), (65, 90), (97, 122)], 195, []⟩],
  row 195 [⟨[(9, 13), (32, 32), (47, 47), (62, 62)], 196, [requestPath]⟩,
      ⟨[(45, 46), (48, 57), (65, 90), (97, 122)], 195, []⟩],
  defaultRow 196 (196, []) [⟨one 62, 197, []⟩],
  defaultRow 197 (196, []) [⟨one 0, 349, [xml, done]⟩, ⟨one 62, 197, []⟩],
  relaxedRow 198 (202, []) [⟨one 32, 199, [requestPath]⟩, ⟨one 37, 203, []⟩, ⟨one 47, 208, []⟩,
      ⟨segmentNc, 202, []⟩],
  row 199 [⟨one 123, 200, [mark]⟩],
  defaultRow 200 (200, []) [⟨one 125, 201, []⟩],
  defaultRow 201 (200, []) [⟨one 0, 349, [json, done]⟩, ⟨one 125, 201, []⟩],
  relaxedRow 202 (202, []) [⟨one 32, 199, [requestPath]⟩, ⟨one 37, 203, []⟩, ⟨one 47, 205, []⟩,
      ⟨segmentNc, 202, []⟩],
  row 203 [⟨xdigit, 204, []⟩],
  row 204 [⟨xdigit, 202, []⟩],
  relaxedRow 205 (205, []) [⟨one 32, 199, [requestPath]⟩, ⟨one 37, 206, []⟩, ⟨pathChar, 205, []⟩],
  row 206 [⟨xdigit, 207, []⟩],
  row 207 [⟨xdigit, 205, []⟩],
  relaxedRow 208 (205, []) [⟨one 32, 199, [requestPath]⟩, ⟨one 37, 206, []⟩, ⟨one 47, 209, []⟩,
      ⟨pchar, 205, []⟩],
  relaxedRow 209 (210, []) [⟨one 32, 199, [requestPath]⟩, ⟨one 37, 211, []⟩, ⟨one 47, 205, []⟩,
      ⟨one 58, 213, []⟩, ⟨one 64, 217, []⟩, ⟨one 91, 222, []⟩, ⟨regChar, 210, []⟩],
  relaxedRow 210 (210, []) [⟨one 32, 199, [requestPath]⟩, ⟨one 37, 211, []⟩, ⟨one 47, 205, []⟩,
      ⟨one 58, 213, []⟩, ⟨one 64, 217, []⟩, ⟨regChar, 210, []⟩],
  row 211 [⟨xdigit, 212, []⟩],
  row 212 [⟨xdigit, 210, []⟩],
  relaxedRow 213 (214, []) [⟨one 32, 199, [requestPath]⟩, ⟨one 37, 215, []⟩, ⟨one 47, 205, []⟩,
      ⟨one 64, 217, []⟩, ⟨digit, 213, []⟩, ⟨userinfoChar, 214, []⟩],
  relaxedRow 214 (214, []) [⟨one 37, 215, []⟩, ⟨one 64, 217, []⟩, ⟨userinfoChar, 214, []⟩],
  row 215 [⟨xdigit, 216, []⟩],
  row 216 [⟨xdigit, 214, []⟩],
  relaxedRow 217 (218, []) [⟨one 32, 199, [requestPath]⟩, ⟨one 37, 219, []⟩, ⟨one 47, 205, []⟩,
      ⟨one 58, 221, []⟩, ⟨one 91, 222, []⟩, ⟨regChar, 218, []⟩],
  relaxedRow 218 (218, []) [⟨one 32, 199, [requestPath]⟩, ⟨one 37, 219, []⟩, ⟨one 47, 205, []⟩,
      ⟨one 58, 221, []⟩, ⟨regChar, 218, []⟩],
  row 219 [⟨xdigit, 220, []⟩],
  row 220 [⟨xdigit, 218, []⟩],
  row 221 [⟨one 32, 199, [requestPath]⟩, ⟨one 47, 205, []⟩, ⟨digit, 221, []⟩],
  row 222 [⟨one 6, 223, []⟩, ⟨one 58, 342, []⟩, ⟨one 118, 344, []⟩, ⟨xdigit, 266, []⟩],
  row 223 [⟨xdigit, 224, []⟩],
  row 224 [⟨one 58, 228, []⟩, ⟨xdigit, 225, []⟩],
  row 225 [⟨one 58, 228, []⟩, ⟨xdigit, 226, []⟩],
  row 226 [⟨one 58, 228, []⟩, ⟨xdigit, 227, []⟩],
  row 227 [⟨one 58, 228, []⟩],
  row 228 [⟨one 49, 259, []⟩, ⟨one 50, 262, []⟩, ⟨digit, 229, []⟩, ⟨xalpha, 265, []⟩],
  row 229 [⟨one 46, 230, []⟩, ⟨one 58, 255, []⟩, ⟨xdigit, 252, []⟩],
  row 230 [⟨one 49, 247, []⟩, ⟨one 50, 249, []⟩, ⟨digit, 231, []⟩],
  row 231 [⟨one 46, 232, []⟩],
  row 232 [⟨one 49, 242, []⟩, ⟨one 50, 244, []⟩, ⟨digit, 233, []⟩],
  row 233 [⟨one 46, 234, []⟩],
  row 234 [⟨one 49, 237, []⟩, ⟨one 50, 239, []⟩, ⟨digit, 235, []⟩],
  row 235 [⟨one 93, 236, []⟩],
  row 236 [⟨one 32, 199, [requestPath]⟩, ⟨one 47, 205, []⟩, ⟨one 58, 221, []⟩],
  row 237 [⟨one 93, 236, []⟩, ⟨digit, 238, []⟩],
  row 238 [⟨one 93, 236, []⟩, ⟨digit, 235, []⟩],
  row 239 [⟨one 48, 240, []⟩, ⟨one 53, 241, []⟩, ⟨one 93, 236, []⟩],
  row 240 [⟨digit, 235, []⟩],
  row 241 [⟨one 48, 235, []⟩],
  row 242 [⟨one 46, 234, []⟩, ⟨digit, 243, []⟩],
  row 243 [⟨one 46, 234, []⟩, ⟨digit, 233, []⟩],
  row 244 [⟨one 46, 234, []⟩, ⟨one 48, 245, []⟩, ⟨one 53, 246, []⟩],
  row 245 [⟨digit, 233, []⟩],
  row 246 [⟨one 48, 233, []⟩],
  row 247 [⟨one 46, 232, []⟩, ⟨digit, 248, []⟩],
  row 248 [⟨one 46, 232, []⟩, ⟨digit, 231, []⟩],
  row 249 [⟨one 46, 232, []⟩, ⟨one 48, 250, []⟩, ⟨one 53, 251, []⟩],
  row 250 [⟨digit, 231, []⟩],
  row 251 [⟨one 48, 231, []⟩],
  row 252 [⟨one 58, 255, []⟩, ⟨xdigit, 253, []⟩],
  row 253 [⟨one 58, 255, []⟩, ⟨xdigit, 254, []⟩],
  row 254 [⟨one 58, 255, []⟩],
  row 255 [⟨xdigit, 256, []⟩],
  row 256 [⟨one 93, 236, []⟩, ⟨xdigit, 257, []⟩],
  row 257 [⟨one 93, 236, []⟩, ⟨xdigit, 258, []⟩],
  row 258 [⟨one 93, 236, []⟩, ⟨xdigit, 235, []⟩],
  row 259 [⟨one 46, 230, []⟩, ⟨one 58, 255, []⟩, ⟨digit, 260, []⟩, ⟨xalpha, 252, []⟩],
  row 260 [⟨one 46, 230, []⟩, ⟨one 58, 255, []⟩, ⟨digit, 261, []⟩, ⟨xalpha, 253, []⟩],
  row 261 [⟨one 46, 230, []⟩, ⟨one 58, 255, []⟩, ⟨xdigit, 254, []⟩],
  row 262 [⟨one 46, 230, []⟩, ⟨one 48, 263, []⟩, ⟨one 53, 264, []⟩, ⟨one 58, 255, []⟩,
      ⟨xdigit, 252, []⟩],
  row 263 [⟨one 58, 255, []⟩, ⟨digit, 261, []⟩, ⟨xalpha, 253, []⟩],
  row 264 [⟨one 48, 261, []⟩, ⟨one 58, 255, []⟩, ⟨xdigit, 253, []⟩],
  row 265 [⟨one 58, 255, []⟩, ⟨xdigit, 252, []⟩],
  row 266 [⟨one 58, 270, []⟩, ⟨xdigit, 267, []⟩],
  row 267 [⟨one 58, 270, []⟩, ⟨xdigit, 268, []⟩],
  row 268 [⟨one 58, 270, []⟩, ⟨xdigit, 269, []⟩],
  row 269 [⟨one 58, 270, []⟩],
  row 270 [⟨one 58, 341, []⟩, ⟨xdigit, 271, []⟩],
  row 271 [⟨one 58, 275, []⟩, ⟨xdigit, 272, []⟩],
  row 272 [⟨one 58, 275, []⟩, ⟨xdigit, 273, []⟩],
  row 273 [⟨one 58, 275, []⟩, ⟨xdigit, 274, []⟩],
  row 274 [⟨one 58, 275, []⟩],
  row 275 [⟨one 58, 340, []⟩, ⟨xdigit, 276, []⟩],
  row 276 [⟨one 58, 280, []⟩, ⟨xdigit, 277, []⟩],
  row 277 [⟨one 58, 280, []⟩, ⟨xdigit, 278, []⟩],
  row 278 [⟨one 58, 280, []⟩, ⟨xdigit, 279, []⟩],
  row 279 [⟨one 58, 280, []⟩],
  row 280 [⟨one 58, 339, []⟩, ⟨xdigit, 281, []⟩],
  row 281 [⟨one 58, 285, []⟩, ⟨xdigit, 282, []⟩],
  row 282 [⟨one 58, 285, []⟩, ⟨xdigit, 283, []⟩],
  row 283 [⟨one 58, 285, []⟩, ⟨xdigit, 284, []⟩],
  row 284 [⟨one 58, 285, []⟩],
  row 285 [⟨one 58, 338, []⟩, ⟨xdigit, 286, []⟩],
  row 286 [⟨one 58, 290, []⟩, ⟨xdigit, 287, []⟩],
  row 287 [⟨one 58, 290, []⟩, ⟨xdigit, 288, []⟩],
  row 288 [⟨one 58, 290, []⟩, ⟨xdigit, 289, []⟩],
  row 289 [⟨one 58, 290, []⟩],
  row 290 [⟨one 58, 326, []⟩, ⟨xdigit, 291, []⟩],
  row 291 [⟨one 58, 295, []⟩, ⟨xdigit, 292, []⟩],
  row 292 [⟨one 58, 295, []⟩, ⟨xdigit, 293, []⟩],
  row 293 [⟨one 58, 295, []⟩, ⟨xdigit, 294, []⟩],
  row 294 [⟨one 58, 295, []⟩],
  row 295 [⟨one 58, 325, []⟩, ⟨xdigit, 296, []⟩],
  row 296 [⟨one 58, 300, []⟩, ⟨xdigit, 297, []⟩],
  row 297 [⟨one 58, 300, []⟩, ⟨xdigit, 298, []⟩],
  row 298 [⟨one 58, 300, []⟩, ⟨xdigit, 299, []⟩],
  row 299 [⟨one 58, 300, []⟩],
  row 300 [⟨one 58, 301, []⟩, ⟨xdigit, 296, []⟩],
  row 301 [⟨one 49, 318, []⟩, ⟨one 50, 321, []⟩, ⟨one 93, 236, []⟩, ⟨[(2, 3)], 223, []⟩,
      ⟨digit, 302, []⟩, ⟨xalpha, 324, []⟩],
  row 302 [⟨one 46, 230, []⟩, ⟨one 58, 306, []⟩, ⟨one 93, 236, []⟩, ⟨xdigit, 303, []⟩],
  row 303 [⟨one 58, 306, []⟩, ⟨one 93, 236, []⟩, ⟨xdigit, 304, []⟩],
  row 304 [⟨one 58, 306, []⟩, ⟨one 93, 236, []⟩, ⟨xdigit, 305, []⟩],
  row 305 [⟨one 58, 306, []⟩, ⟨one 93, 236, []⟩],
  row 306 [⟨one 49, 311, []⟩, ⟨one 50, 314, []⟩, ⟨digit, 307, []⟩, ⟨xalpha, 317, []⟩],
  row 307 [⟨one 46, 230, []⟩, ⟨one 58, 255, []⟩, ⟨one 93, 236, []⟩, ⟨xdigit, 308, []⟩],
  row 308 [⟨one 58, 255, []⟩, ⟨one 93, 236, []⟩, ⟨xdigit, 309, []⟩],
  row 309 [⟨one 58, 255, []⟩, ⟨one 93, 236, []⟩, ⟨xdigit, 310, []⟩],
  row 310 [⟨one 58, 255, []⟩, ⟨one 93, 236, []⟩],
  row 311 [⟨one 46, 230, []⟩, ⟨one 58, 255, []⟩, ⟨one 93, 236, []⟩, ⟨digit, 312, []⟩,
      ⟨xalpha, 308, []⟩],
  row 312 [⟨one 46, 230, []⟩, ⟨one 58, 255, []⟩, ⟨one 93, 236, []⟩, ⟨digit, 313, []⟩,
      ⟨xalpha, 309, []⟩],
  row 313 [⟨one 46, 230, []⟩, ⟨one 58, 255, []⟩, ⟨one 93, 236, []⟩, ⟨xdigit, 310, []⟩],
  row 314 [⟨one 46, 230, []⟩, ⟨one 48, 315, []⟩, ⟨one 53, 316, []⟩, ⟨one 58, 255, []⟩,
      ⟨one 93, 236, []⟩, ⟨xdigit, 308, []⟩],
  row 315 [⟨one 58, 255, []⟩, ⟨one 93, 236, []⟩, ⟨digit, 313, []⟩, ⟨xalpha, 309, []⟩],
  row 316 [⟨one 48, 313, []⟩, ⟨one 58, 255, []⟩, ⟨one 93, 236, []⟩, ⟨xdigit, 309, []⟩],
  row 317 [⟨one 58, 255, []⟩, ⟨one 93, 236, []⟩, ⟨xdigit, 308, []⟩],
  row 318 [⟨one 46, 230, []⟩, ⟨one 58, 306, []⟩, ⟨one 93, 236, []⟩, ⟨digit, 319, []⟩,
      ⟨xalpha, 303, []⟩],
  row 319 [⟨one 46, 230, []⟩, ⟨one 58, 306, []⟩, ⟨one 93, 236, []⟩, ⟨digit, 320, []⟩,
      ⟨xalpha, 304, []⟩],
  row 320 [⟨one 46, 230, []⟩, ⟨one 58, 306, []⟩, ⟨one 93, 236, []⟩, ⟨xdigit, 305, []⟩],
  row 321 [⟨one 46, 230, []⟩, ⟨one 48, 322, []⟩, ⟨one 53, 323, []⟩, ⟨one 58, 306, []⟩,
      ⟨one 93, 236, []⟩, ⟨xdigit, 303, []⟩],
  row 322 [⟨one 58, 306, []⟩, ⟨one 93, 236, []⟩, ⟨digit, 320, []⟩, ⟨xalpha, 304, []⟩],
  row 323 [⟨one 48, 320, []⟩, ⟨one 58, 306, []⟩, ⟨one 93, 236, []⟩, ⟨xdigit, 304, []⟩],
  row 324 [⟨one 58, 306, []⟩, ⟨one 93, 236, []⟩, ⟨xdigit, 303, []⟩],
  row 325 [⟨one 49, 318, []⟩, ⟨one 50, 321, []⟩, ⟨[(2, 3)], 223, []⟩, ⟨digit, 302, []⟩,
      ⟨xalpha, 324, []⟩],
  row 326 [⟨one 49, 331, []⟩, ⟨one 50, 334, []⟩, ⟨[(2, 3)], 223, []⟩, ⟨digit, 327, []⟩,
      ⟨xalpha, 337, []⟩],
  row 327 [⟨one 46, 230, []⟩, ⟨one 58, 306, []⟩, ⟨xdigit, 328, []⟩],
  row 328 [⟨one 58, 306, []⟩, ⟨xdigit, 329, []⟩],
  row 329 [⟨one 58, 306, []⟩, ⟨xdigit, 330, []⟩],
  row 330 [⟨one 58, 306, []⟩],
  row 331 [⟨one 46, 230, []⟩, ⟨one 58, 306, []⟩, ⟨digit, 332, []⟩, ⟨xalpha, 328, []⟩],
  row 332 [⟨one 46, 230, []⟩, ⟨one 58, 306, []⟩, ⟨digit, 333, []⟩, ⟨xalpha, 329, []⟩],
  row 333 [⟨one 46, 230, []⟩, ⟨one 58, 306, []⟩, ⟨xdigit, 330, []⟩],
  row 334 [⟨one 46, 230, []⟩, ⟨one 48, 335, []⟩, ⟨one 53, 336, []⟩, ⟨one 58, 306, []⟩,
      ⟨xdigit, 328, []⟩],
  row 335 [⟨one 58, 306, []⟩, ⟨digit, 333, []⟩, ⟨xalpha, 329, []⟩],
  row 336 [⟨one 48, 333, []⟩, ⟨one 58, 306, []⟩, ⟨xdigit, 329, []⟩],
  row 337 [⟨one 58, 306, []⟩, ⟨xdigit, 328, []⟩],
  row 338 [⟨[(2, 3)], 223, []⟩, ⟨xdigit, 224, []⟩],
  row 339 [⟨[(2, 3)], 223, []⟩],
  row 340 [⟨one 3, 223, []⟩],
  row 341 [⟨one 4, 223, []⟩],
  row 342 [⟨one 58, 343, []⟩],
  row 343 [⟨one 49, 318, []⟩, ⟨one 50, 321, []⟩, ⟨one 93, 236, []⟩, ⟨[(2, 5)], 223, []⟩,
      ⟨digit, 302, []⟩, ⟨xalpha, 324, []⟩],
  row 344 [⟨xdigit, 345, []⟩],
  row 345 [⟨one 46, 346, []⟩, ⟨xdigit, 345, []⟩],
  relaxedRow 346 (347, []) [⟨userinfoChar, 347, []⟩],
  relaxedRow 347 (347, []) [⟨one 93, 236, []⟩, ⟨userinfoChar, 347, []⟩],
  row 348 [⟨one 58, 15, [writeField]⟩, ⟨token, 14, []⟩],
  row 349 []]

end RequestRow

/-- `http_parser` of `httprequest_parser.cpp`. -/
def httpParserScanner (uriRelaxed : Bool) : Scanner RequestAction where
  start := 1
  firstFinal := 348
  breaks a := a = .done
  row s :=
    match RequestRow.rows.find? fun r => r.state = s with
    | some r => r.toRow uriRelaxed
    | none => ⟨[], 0, []⟩

end CppServerFramework.HTTP

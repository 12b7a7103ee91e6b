import CppServerFramework.HTTP.RequestTable

/-!
# The scanner of HTTP responses

The table that Ragel has generated from `httprespond_parser.rl` (`httprespond_parser.cpp`), state
by state: the transitions of `_httpclient_parser_trans_keys`, `_httpclient_parser_indicies`,
`_httpclient_parser_trans_targs` and `_httpclient_parser_trans_actions`, in the order in which they
are searched.
-/

namespace CppServerFramework.HTTP

/-- The actions of `httprespond_parser.rl:20-82`, as numbered in `_httpclient_parser_actions`. -/
inductive ResponseAction where
  | mark
  | startField
  | writeField
  | startValue
  | writeContentLen
  | writeConnectionClose
  | writeValue
  | reasonPhrase
  | statusCode
  | httpVersion
  | chunkSize
  | transChunked
  | done
  deriving DecidableEq, Repr

structure ResponseRow where
  state : Nat
  edges : List (Edge ResponseAction)
  default : Nat × List ResponseAction := (0, [])

namespace ResponseRow

def row (s : Nat) (edges : List (Edge ResponseAction)) : ResponseRow :=
  { state := s, edges := edges }

def defaultRow (s : Nat) (default : Nat × List ResponseAction)
    (edges : List (Edge ResponseAction)) : ResponseRow :=
  { state := s, edges := edges, default := default }

def token : List (Nat × Nat) :=
  [(33, 33), (35, 39), (42, 43), (45, 46), (48, 57), (65, 90), (94, 122), (124, 124), (126, 126)]

def space : List (Nat × Nat) := [(9, 13), (32, 32)]

/-- A letter, which is given as a capital, and the small letter. -/
def letter (b : Nat) : List (Nat × Nat) := [(b, b), (b + 32, b + 32)]

open ResponseAction

def rows : List ResponseRow :=
  [row 1 [⟨one 72, 8, [mark]⟩, ⟨xdigit, 2, [mark]⟩],
  row 2 [⟨one 10, 120, [chunkSize, done]⟩, ⟨one 13, 3, [chunkSize]⟩, ⟨one 59, 4, [chunkSize]⟩,
      ⟨xdigit, 2, []⟩],
  row 3 [⟨one 10, 120, [done]⟩],
  row 4 [⟨token, 5, [startField]⟩],
  row 5 [⟨one 10, 120, [writeField, startValue, writeValue, done]⟩,
      ⟨one 13, 3, [writeField, startValue, writeValue]⟩,
      ⟨one 59, 4, [writeField, startValue, writeValue]⟩, ⟨one 61, 6, [writeField, startValue]⟩,
      ⟨token, 5, []⟩],
  row 6 [⟨token, 7, [startValue]⟩],
  row 7 [⟨one 10, 120, [writeValue, done]⟩, ⟨one 13, 3, [writeValue]⟩, ⟨one 59, 4, [writeValue]⟩,
      ⟨token, 7, []⟩],
  row 8 [⟨one 84, 9, []⟩],
  row 9 [⟨one 84, 10, []⟩],
  row 10 [⟨one 80, 11, []⟩],
  row 11 [⟨one 47, 12, []⟩],
  row 12 [⟨digit, 13, []⟩],
  row 13 [⟨one 46, 14, []⟩, ⟨digit, 13, []⟩],
  row 14 [⟨digit, 15, []⟩],
  row 15 [⟨one 32, 16, [httpVersion]⟩, ⟨digit, 15, []⟩],
  row 16 [⟨digit, 17, [mark]⟩],
  row 17 [⟨one 32, 18, [statusCode]⟩, ⟨digit, 17, []⟩],
  defaultRow 18 (19, [mark]) [⟨one 10, 0, []⟩],
  defaultRow 19 (19, []) [⟨one 10, 20, [reasonPhrase]⟩, ⟨one 13, 24, [reasonPhrase]⟩],
  row 20 [⟨one 10, 120, [done]⟩, ⟨one 13, 3, []⟩, ⟨letter 67, 25, [startField]⟩,
      ⟨letter 84, 44, [startField]⟩, ⟨token, 21, [startField]⟩],
  row 21 [⟨one 58, 22, [writeField]⟩, ⟨token, 21, []⟩],
  defaultRow 22 (23, [startValue]) [⟨one 10, 20, [startValue, writeValue]⟩,
      ⟨one 13, 24, [startValue, writeValue]⟩, ⟨space, 22, [startValue]⟩],
  defaultRow 23 (23, []) [⟨one 10, 20, [writeValue]⟩, ⟨one 13, 24, [writeValue]⟩],
  row 24 [⟨one 10, 20, []⟩],
  row 25 [⟨one 58, 22, [writeField]⟩, ⟨letter 79, 26, []⟩, ⟨token, 21, []⟩],
  row 26 [⟨one 58, 22, [writeField]⟩, ⟨letter 78, 27, []⟩, ⟨token, 21, []⟩],
  row 27 [⟨one 58, 22, [writeField]⟩, ⟨letter 78, 28, []⟩, ⟨letter 84, 101, []⟩, ⟨token, 21, []⟩],
  row 28 [⟨one 58, 22, [writeField]⟩, ⟨letter 69, 29, []⟩, ⟨token, 21, []⟩],
  row 29 [⟨one 58, 22, [writeField]⟩, ⟨letter 67, 30, []⟩, ⟨token, 21, []⟩],
  row 30 [⟨one 58, 22, [writeField]⟩, ⟨letter 84, 31, []⟩, ⟨token, 21, []⟩],
  row 31 [⟨one 58, 22, [writeField]⟩, ⟨letter 73, 32, []⟩, ⟨token, 21, []⟩],
  row 32 [⟨one 58, 22, [writeField]⟩, ⟨letter 79, 33, []⟩, ⟨token, 21, []⟩],
  row 33 [⟨one 58, 22, [writeField]⟩, ⟨letter 78, 34, []⟩, ⟨token, 21, []⟩],
  row 34 [⟨one 58, 35, [writeField]⟩, ⟨token, 21, []⟩],
  defaultRow 35 (23, [startValue]) [⟨one 10, 36, [startValue, writeValue]⟩,
      ⟨one 13, 95, [startValue, writeValue]⟩, ⟨letter 67, 96, [startValue]⟩,
      ⟨space, 35, [startValue]⟩],
  row 36 [⟨one 10, 122, [done]⟩, ⟨one 13, 89, []⟩, ⟨letter 67, 90, [startField]⟩,
      ⟨letter 84, 44, [startField]⟩, ⟨space, 37, []⟩, ⟨token, 21, [startField]⟩],
  row 37 [⟨letter 67, 38, []⟩, ⟨space, 37, []⟩],
  row 38 [⟨letter 76, 39, []⟩],
  row 39 [⟨letter 79, 40, []⟩],
  row 40 [⟨letter 83, 41, []⟩],
  row 41 [⟨letter 69, 42, []⟩],
  row 42 [⟨one 10, 43, []⟩, ⟨one 13, 88, []⟩],
  row 43 [⟨one 10, 120, [writeConnectionClose, done]⟩, ⟨one 13, 3, [writeConnectionClose]⟩,
      ⟨letter 67, 25, [writeConnectionClose, startField]⟩,
      ⟨letter 84, 44, [writeConnectionClose, startField]⟩,
      ⟨token, 21, [writeConnectionClose, startField]⟩],
  row 44 [⟨one 58, 22, [writeField]⟩, ⟨letter 82, 45, []⟩, ⟨token, 21, []⟩],
  row 45 [⟨one 58, 22, [writeField]⟩, ⟨letter 65, 46, []⟩, ⟨token, 21, []⟩],
  row 46 [⟨one 58, 22, [writeField]⟩, ⟨letter 78, 47, []⟩, ⟨token, 21, []⟩],
  row 47 [⟨one 58, 22, [writeField]⟩, ⟨letter 83, 48, []⟩, ⟨token, 21, []⟩],
  row 48 [⟨one 58, 22, [writeField]⟩, ⟨letter 70, 49, []⟩, ⟨token, 21, []⟩],
  row 49 [⟨one 58, 22, [writeField]⟩, ⟨letter 69, 50, []⟩, ⟨token, 21, []⟩],
  row 50 [⟨one 58, 22, [writeField]⟩, ⟨letter 82, 51, []⟩, ⟨token, 21, []⟩],
  row 51 [⟨one 45, 52, []⟩, ⟨one 58, 22, [writeField]⟩, ⟨token, 21, []⟩],
  row 52 [⟨one 58, 22, [writeField]⟩, ⟨letter 69, 53, []⟩, ⟨token, 21, []⟩],
  row 53 [⟨one 58, 22, [writeField]⟩, ⟨letter 78, 54, []⟩, ⟨token, 21, []⟩],
  row 54 [⟨one 58, 22, [writeField]⟩, ⟨letter 67, 55, []⟩, ⟨token, 21, []⟩],
  row 55 [⟨one 58, 22, [writeField]⟩, ⟨letter 79, 56, []⟩, ⟨token, 21, []⟩],
  row 56 [⟨one 58, 22, [writeField]⟩, ⟨letter 68, 57, []⟩, ⟨token, 21, []⟩],
  row 57 [⟨one 58, 22, [writeField]⟩, ⟨letter 73, 58, []⟩, ⟨token, 21, []⟩],
  row 58 [⟨one 58, 22, [writeField]⟩, ⟨letter 78, 59, []⟩, ⟨token, 21, []⟩],
  row 59 [⟨one 58, 22, [writeField]⟩, ⟨letter 71, 60, []⟩, ⟨token, 21, []⟩],
  row 60 [⟨one 58, 61, [writeField]⟩, ⟨token, 21, []⟩],
  defaultRow 61 (23, [startValue]) [⟨one 10, 62, [startValue, writeValue]⟩,
      ⟨one 13, 80, [startValue, writeValue]⟩, ⟨letter 67, 81, [startValue]⟩,
      ⟨space, 61, [startValue]⟩],
  row 62 [⟨one 10, 121, [done]⟩, ⟨one 13, 72, []⟩, ⟨letter 67, 73, [startValue, startField]⟩,
      ⟨letter 84, 44, [startField]⟩, ⟨space, 63, []⟩, ⟨token, 21, [startField]⟩],
  row 63 [⟨letter 67, 64, [startValue]⟩, ⟨space, 63, []⟩],
  row 64 [⟨letter 72, 65, []⟩],
  row 65 [⟨letter 85, 66, []⟩],
  row 66 [⟨letter 78, 67, []⟩],
  row 67 [⟨letter 75, 68, []⟩],
  row 68 [⟨letter 69, 69, []⟩],
  row 69 [⟨letter 68, 70, []⟩],
  row 70 [⟨one 10, 20, [writeValue, transChunked]⟩, ⟨one 13, 71, [writeValue]⟩],
  row 71 [⟨one 10, 20, [transChunked]⟩],
  row 72 [⟨one 10, 121, [done]⟩, ⟨letter 67, 64, [startValue]⟩, ⟨space, 63, []⟩],
  row 73 [⟨one 58, 22, [writeField]⟩, ⟨letter 72, 74, []⟩, ⟨letter 79, 26, []⟩, ⟨token, 21, []⟩],
  row 74 [⟨one 58, 22, [writeField]⟩, ⟨letter 85, 75, []⟩, ⟨token, 21, []⟩],
  row 75 [⟨one 58, 22, [writeField]⟩, ⟨letter 78, 76, []⟩, ⟨token, 21, []⟩],
  row 76 [⟨one 58, 22, [writeField]⟩, ⟨letter 75, 77, []⟩, ⟨token, 21, []⟩],
  row 77 [⟨one 58, 22, [writeField]⟩, ⟨letter 69, 78, []⟩, ⟨token, 21, []⟩],
  row 78 [⟨one 58, 22, [writeField]⟩, ⟨letter 68, 79, []⟩, ⟨token, 21, []⟩],
  row 79 [⟨one 10, 20, [writeValue, transChunked]⟩, ⟨one 13, 71, [writeValue]⟩,
      ⟨one 58, 22, [writeField]⟩, ⟨token, 21, []⟩],
  row 80 [⟨one 10, 62, []⟩, ⟨letter 67, 64, [startValue]⟩, ⟨space, 63, []⟩],
  defaultRow 81 (23, []) [⟨one 10, 20, [writeValue]⟩, ⟨one 13, 24, [writeValue]⟩,
      ⟨letter 72, 82, []⟩],
  defaultRow 82 (23, []) [⟨one 10, 20, [writeValue]⟩, ⟨one 13, 24, [writeValue]⟩,
      ⟨letter 85, 83, []⟩],
  defaultRow 83 (23, []) [⟨one 10, 20, [writeValue]⟩, ⟨one 13, 24, [writeValue]⟩,
      ⟨letter 78, 84, []⟩],
  defaultRow 84 (23, []) [⟨one 10, 20, [writeValue]⟩, ⟨one 13, 24, [writeValue]⟩,
      ⟨letter 75, 85, []⟩],
  defaultRow 85 (23, []) [⟨one 10, 20, [writeValue]⟩, ⟨one 13, 24, [writeValue]⟩,
      ⟨letter 69, 86, []⟩],
  defaultRow 86 (23, []) [⟨one 10, 20, [writeValue]⟩, ⟨one 13, 24, [writeValue]⟩,
      ⟨letter 68, 87, []⟩],
  defaultRow 87 (23, []) [⟨one 10, 20, [writeValue, transChunked]⟩, ⟨one 13, 71, [writeValue]⟩],
  row 88 [⟨one 10, 43, []⟩],
  row 89 [⟨one 10, 122, [done]⟩, ⟨letter 67, 38, []⟩, ⟨space, 37, []⟩],
  row 90 [⟨one 58, 22, [writeField]⟩, ⟨letter 76, 91, []⟩, ⟨letter 79, 26, []⟩, ⟨token, 21, []⟩],
  row 91 [⟨one 58, 22, [writeField]⟩, ⟨letter 79, 92, []⟩, ⟨token, 21, []⟩],
  row 92 [⟨one 58, 22, [writeField]⟩, ⟨letter 83, 93, []⟩, ⟨token, 21, []⟩],
  row 93 [⟨one 58, 22, [writeField]⟩, ⟨letter 69, 94, []⟩, ⟨token, 21, []⟩],
  row 94 [⟨one 10, 43, []⟩, ⟨one 13, 88, []⟩, ⟨one 58, 22, [writeField]⟩, ⟨token, 21, []⟩],
  row 95 [⟨one 10, 36, []⟩, ⟨letter 67, 38, []⟩, ⟨space, 37, []⟩],
  defaultRow 96 (23, []) [⟨one 10, 20, [writeValue]⟩, ⟨one 13, 24, [writeValue]⟩,
      ⟨letter 76, 97, []⟩],
  defaultRow 97 (23, []) [⟨one 10, 20, [writeValue]⟩, ⟨one 13, 24, [writeValue]⟩,
      ⟨letter 79, 98, []⟩],
  defaultRow 98 (23, []) [⟨one 10, 20, [writeValue]⟩, ⟨one 13, 24, [writeValue]⟩,
      ⟨letter 83, 99, []⟩],
  defaultRow 99 (23, []) [⟨one 10, 20, [writeValue]⟩, ⟨one 13, 24, [writeValue]⟩,
      ⟨letter 69, 100, []⟩],
  defaultRow 100 (23, []) [⟨one 10, 43, [writeValue]⟩, ⟨one 13, 88, [writeValue]⟩],
  row 101 [⟨one 58, 22, [writeField]⟩, ⟨letter 69, 102, []⟩, ⟨token, 21, []⟩],
  row 102 [⟨one 58, 22, [writeField]⟩, ⟨letter 78, 103, []⟩, ⟨token, 21, []⟩],
  row 103 [⟨one 58, 22, [writeField]⟩, ⟨letter 84, 104, []⟩, ⟨token, 21, []⟩],
  row 104 [⟨one 45, 105, []⟩, ⟨one 58, 22, [writeField]⟩, ⟨token, 21, []⟩],
  row 105 [⟨one 58, 22, [writeField]⟩, ⟨letter 76, 106, []⟩, ⟨token, 21, []⟩],
  row 106 [⟨one 58, 22, [writeField]⟩, ⟨letter 69, 107, []⟩, ⟨token, 21, []⟩],
  row 107 [⟨one 58, 22, [writeField]⟩, ⟨letter 78, 108, []⟩, ⟨token, 21, []⟩],
  row 108 [⟨one 58, 22, [writeField]⟩, ⟨letter 71, 109, []⟩, ⟨token, 21, []⟩],
  row 109 [⟨one 58, 22, [writeField]⟩, ⟨letter 84, 110, []⟩, ⟨token, 21, []⟩],
  row 110 [⟨one 58, 22, [writeField]⟩, ⟨letter 72, 111, []⟩, ⟨token, 21, []⟩],
  row 111 [⟨one 58, 112, [writeField]⟩, ⟨token, 21, []⟩],
  defaultRow 112 (23, [startValue]) [⟨one 10, 113, [startValue, writeValue]⟩,
      ⟨one 13, 118, [startValue, writeValue]⟩, ⟨space, 112, [startValue]⟩,
      ⟨digit, 119, [startValue]⟩],
  row 113 [⟨one 10, 123, [done]⟩, ⟨one 13, 116, []⟩, ⟨letter 67, 25, [startField]⟩,
      ⟨letter 84, 44, [startField]⟩, ⟨space, 114, []⟩, ⟨digit, 117, [startValue, startField]⟩,
      ⟨token, 21, [startField]⟩],
  row 114 [⟨space, 114, []⟩, ⟨digit, 115, [startValue]⟩],
  row 115 [⟨one 10, 20, [writeContentLen, writeValue]⟩, ⟨one 13, 24, [writeContentLen, writeValue]⟩,
      ⟨digit, 115, []⟩],
  row 116 [⟨one 10, 123, [done]⟩, ⟨space, 114, []⟩, ⟨digit, 115, [startValue]⟩],
  row 117 [⟨one 10, 20, [writeContentLen, writeValue]⟩, ⟨one 13, 24, [writeContentLen, writeValue]⟩,
      ⟨one 58, 22, [writeField]⟩, ⟨digit, 117, []⟩, ⟨token, 21, []⟩],
  row 118 [⟨one 10, 113, []⟩, ⟨space, 114, []⟩, ⟨digit, 115, [startValue]⟩],
  defaultRow 119 (23, []) [⟨one 10, 20, [writeContentLen, writeValue]⟩,
      ⟨one 13, 24, [writeContentLen, writeValue]⟩, ⟨digit, 119, []⟩],
  row 120 [],
  row 121 [⟨letter 67, 64, [startValue]⟩, ⟨space, 63, []⟩],
  row 122 [⟨letter 67, 38, []⟩, ⟨space, 37, []⟩],
  row 123 [⟨space, 114, []⟩, ⟨digit, 115, [startValue]⟩]]

end ResponseRow

/-- `httpclient_parser` of `httprespond_parser.cpp`. -/
def httpclientParserScanner : Scanner ResponseAction where
  start := 1
  firstFinal := 120
  breaks a := a = .done
  row s :=
    match ResponseRow.rows.find? fun r => r.state = s with
    | some r => ⟨r.edges, r.default⟩
    | none => ⟨[], 0, []⟩

end CppServerFramework.HTTP

import CppServerFramework.HTTP.RequestTable

/-!
# The scanner of URIs

The table that Ragel has generated from `uri.rl` (`uri.cpp`), state by state: the transitions of
`_uri_parser_trans_keys`, `_uri_parser_indicies`, `_uri_parser_trans_targs` and
`_uri_parser_trans_actions`, and the actions of `_uri_parser_eof_actions` for the end of the text.
The keys are of type `char`, so that the negative ones are the bytes from 128 on.
-/

namespace CppServerFramework.HTTP

/-- The actions of `uri.rl:16-116`, as numbered in `_uri_parser_actions`. -/
inductive UriAction where
  | markU
  | markH
  | saveScheme
  | savePort
  | saveUserinfo
  | saveHost
  | savePath
  | saveQuery
  | saveFragment
  deriving DecidableEq, Repr

structure UriRow where
  state : Nat
  edges : List (Edge UriAction)
  eof : List UriAction := []

namespace UriRow
open RequestRow UriAction

def row (s : Nat) (edges : List (Edge UriAction)) (eof : List UriAction := []) : UriRow :=
  ⟨s, edges, eof⟩

/-- A transition without an action. -/
def go (ranges : List (Nat × Nat)) (t : Nat) : Edge UriAction := ⟨ranges, t, []⟩

/-- A state in which the part in front of `?` and `#` may end; a slash leads to `slash`. -/
def endRow (s : Nat) (eof : List UriAction) (slash : Nat × List UriAction)
    (edges : List (Edge UriAction)) : UriRow :=
  ⟨s, ⟨one 35, 453, eof⟩ :: ⟨one 47, slash.1, slash.2⟩ :: ⟨one 63, 456, eof⟩ :: edges, eof⟩

/-- A state in which the host of a relative reference may end. -/
def refHost (s : Nat) (edges : List (Edge UriAction)) : UriRow :=
  endRow s [saveHost] (455, [saveHost]) edges

/-- A state in which the host of a URI with a scheme may end. -/
def uriHost (s : Nat) (edges : List (Edge UriAction)) : UriRow :=
  endRow s [saveHost, markH, savePath] (513, [saveHost, markH]) edges

def hexLetter : List (Nat × Nat) := [(65, 70), (97, 102)]

def alpha : List (Nat × Nat) := [(65, 90), (97, 122)]

def nonAscii : List (Nat × Nat) := [(128, 255)]

/-- The bytes of a host other than the dot, the digits and the percent sign. -/
def marks : List (Nat × Nat) :=
  [(33, 33), (36, 36), (38, 45), (59, 59), (61, 61), (65, 90), (95, 95), (97, 122), (126, 126)]

/-- The rows in the order of their states, twenty to a list. -/
def rows : List (List UriRow) :=
  [[row 0 [],
  row 1 [go xdigit 2],
  row 2 [go xdigit 454],
  row 3 [go xdigit 4],
  row 4 [go xdigit 452],
  row 5 [go xdigit 6],
  row 6 [go xdigit 455],
  row 7 [go xdigit 8],
  row 8 [go xdigit 457],
  row 9 [go [(48, 52)] 10],
  row 10 [go digit 11],
  row 11 [go (one 46) 12],
  row 12 [go (one 2) 13, go (one 48) 15, go (one 49) 27, go (one 50) 29, go [(51, 57)] 28],
  row 13 [go [(48, 52)] 14],
  row 14 [go digit 15],
  row 15 [go (one 46) 16],
  row 16 [go (one 2) 17, go (one 48) 19, go (one 49) 23, go (one 50) 25, go [(51, 57)] 24],
  row 17 [go [(48, 52)] 18],
  row 18 [go digit 19],
  row 19 [go (one 46) 20]],
  [row 20 [go (one 2) 21, go (one 48) 460, go (one 49) 463, go (one 50) 465, go [(51, 57)] 464],
  row 21 [go [(48, 52)] 22],
  row 22 [go digit 460],
  row 23 [go (one 46) 20, go digit 24],
  row 24 [go (one 46) 20, go digit 19],
  row 25 [go (one 46) 20, go (one 53) 26, go [(48, 52), (54, 57)] 19],
  row 26 [go (one 46) 20, go [(48, 53)] 19],
  row 27 [go (one 46) 16, go digit 28],
  row 28 [go (one 46) 16, go digit 15],
  row 29 [go (one 46) 16, go (one 53) 30, go [(48, 52), (54, 57)] 15],
  row 30 [go (one 46) 16, go [(48, 53)] 15],
  row 31 [go xdigit 32],
  row 32 [go xdigit 467],
  row 33 [go (one 37) 34, ⟨one 64, 469, [saveUserinfo]⟩,
      go (marks ++ digit ++ [(46, 46), (58, 58)]) 33],
  row 34 [go xdigit 35],
  row 35 [go xdigit 33],
  row 36 [go xdigit 37],
  row 37 [go xdigit 470],
  row 38 [go (one 58) 146, go (one 118) 225, go xdigit 39],
  row 39 [go (one 58) 43, go xdigit 40]],
  [row 40 [go (one 58) 43, go xdigit 41],
  row 41 [go (one 58) 43, go xdigit 42],
  row 42 [go (one 58) 43],
  row 43 [go (one 58) 141, go xdigit 44],
  row 44 [go (one 58) 48, go xdigit 45],
  row 45 [go (one 58) 48, go xdigit 46],
  row 46 [go (one 58) 48, go xdigit 47],
  row 47 [go (one 58) 48],
  row 48 [go (one 58) 136, go xdigit 49],
  row 49 [go (one 58) 53, go xdigit 50],
  row 50 [go (one 58) 53, go xdigit 51],
  row 51 [go (one 58) 53, go xdigit 52],
  row 52 [go (one 58) 53],
  row 53 [go (one 58) 131, go xdigit 54],
  row 54 [go (one 58) 58, go xdigit 55],
  row 55 [go (one 58) 58, go xdigit 56],
  row 56 [go (one 58) 58, go xdigit 57],
  row 57 [go (one 58) 58],
  row 58 [go (one 58) 126, go xdigit 59],
  row 59 [go (one 58) 63, go xdigit 60]],
  [row 60 [go (one 58) 63, go xdigit 61],
  row 61 [go (one 58) 63, go xdigit 62],
  row 62 [go (one 58) 63],
  row 63 [go (one 58) 113, go xdigit 64],
  row 64 [go (one 58) 68, go xdigit 65],
  row 65 [go (one 58) 68, go xdigit 66],
  row 66 [go (one 58) 68, go xdigit 67],
  row 67 [go (one 58) 68],
  row 68 [go (one 2) 69, go (one 48) 96, go (one 49) 104, go (one 50) 107, go (one 58) 111,
      go [(51, 57)] 110, go hexLetter 112],
  row 69 [go [(48, 52)] 70],
  row 70 [go digit 71],
  row 71 [go (one 46) 72],
  row 72 [go (one 2) 73, go (one 48) 75, go (one 49) 92, go (one 50) 94, go [(51, 57)] 93],
  row 73 [go [(48, 52)] 74],
  row 74 [go digit 75],
  row 75 [go (one 46) 76],
  row 76 [go (one 2) 77, go (one 48) 79, go (one 49) 88, go (one 50) 90, go [(51, 57)] 89],
  row 77 [go [(48, 52)] 78],
  row 78 [go digit 79],
  row 79 [go (one 46) 80]],
  [row 80 [go (one 2) 81, go (one 48) 83, go (one 49) 84, go (one 50) 86, go [(51, 57)] 85],
  row 81 [go [(48, 52)] 82],
  row 82 [go digit 83],
  row 83 [go (one 93) 460],
  row 84 [go (one 93) 460, go digit 85],
  row 85 [go (one 93) 460, go digit 83],
  row 86 [go (one 53) 87, go (one 93) 460, go [(48, 52), (54, 57)] 83],
  row 87 [go (one 93) 460, go [(48, 53)] 83],
  row 88 [go (one 46) 80, go digit 89],
  row 89 [go (one 46) 80, go digit 79],
  row 90 [go (one 46) 80, go (one 53) 91, go [(48, 52), (54, 57)] 79],
  row 91 [go (one 46) 80, go [(48, 53)] 79],
  row 92 [go (one 46) 76, go digit 93],
  row 93 [go (one 46) 76, go digit 75],
  row 94 [go (one 46) 76, go (one 53) 95, go [(48, 52), (54, 57)] 75],
  row 95 [go (one 46) 76, go [(48, 53)] 75],
  row 96 [go (one 46) 72, go (one 58) 100, go xdigit 97],
  row 97 [go (one 58) 100, go xdigit 98],
  row 98 [go (one 58) 100, go xdigit 99],
  row 99 [go (one 58) 100]],
  [row 100 [go (one 58) 83, go xdigit 101],
  row 101 [go (one 93) 460, go xdigit 102],
  row 102 [go (one 93) 460, go xdigit 103],
  row 103 [go (one 93) 460, go xdigit 83],
  row 104 [go (one 46) 72, go (one 58) 100, go digit 105, go hexLetter 97],
  row 105 [go (one 46) 72, go (one 58) 100, go digit 106, go hexLetter 98],
  row 106 [go (one 46) 72, go (one 58) 100, go xdigit 99],
  row 107 [go (one 46) 72, go (one 53) 109, go (one 58) 100, go [(48, 52), (54, 57)] 108,
      go hexLetter 97],
  row 108 [go (one 46) 72, go (one 58) 100, go xdigit 98],
  row 109 [go (one 46) 72, go (one 58) 100, go [(48, 53)] 106, go [(54, 57), (65, 70),
      (97, 102)] 98],
  row 110 [go (one 46) 72, go (one 58) 100, go digit 108, go hexLetter 97],
  row 111 [go xdigit 101],
  row 112 [go (one 58) 100, go xdigit 97],
  row 113 [go (one 2) 69, go (one 48) 114, go (one 49) 118, go (one 50) 121, go [(51, 57)] 124,
      go hexLetter 125],
  row 114 [go (one 46) 72, go (one 58) 111, go xdigit 115],
  row 115 [go (one 58) 111, go xdigit 116],
  row 116 [go (one 58) 111, go xdigit 117],
  row 117 [go (one 58) 111],
  row 118 [go (one 46) 72, go (one 58) 111, go digit 119, go hexLetter 115],
  row 119 [go (one 46) 72, go (one 58) 111, go digit 120, go hexLetter 116]],
  [row 120 [go (one 46) 72, go (one 58) 111, go xdigit 117],
  row 121 [go (one 46) 72, go (one 53) 123, go (one 58) 111, go [(48, 52), (54, 57)] 122,
      go hexLetter 115],
  row 122 [go (one 46) 72, go (one 58) 111, go xdigit 116],
  row 123 [go (one 46) 72, go (one 58) 111, go [(48, 53)] 120, go [(54, 57), (65, 70),
      (97, 102)] 116],
  row 124 [go (one 46) 72, go (one 58) 111, go digit 122, go hexLetter 115],
  row 125 [go (one 58) 111, go xdigit 115],
  row 126 [go xdigit 127],
  row 127 [go (one 58) 113, go xdigit 128],
  row 128 [go (one 58) 113, go xdigit 129],
  row 129 [go (one 58) 113, go xdigit 130],
  row 130 [go (one 58) 113],
  row 131 [go xdigit 132],
  row 132 [go (one 58) 126, go xdigit 133],
  row 133 [go (one 58) 126, go xdigit 134],
  row 134 [go (one 58) 126, go xdigit 135],
  row 135 [go (one 58) 126],
  row 136 [go xdigit 137],
  row 137 [go (one 58) 131, go xdigit 138],
  row 138 [go (one 58) 131, go xdigit 139],
  row 139 [go (one 58) 131, go xdigit 140]],
  [row 140 [go (one 58) 131],
  row 141 [go xdigit 142],
  row 142 [go (one 58) 136, go xdigit 143],
  row 143 [go (one 58) 136, go xdigit 144],
  row 144 [go (one 58) 136, go xdigit 145],
  row 145 [go (one 58) 136],
  row 146 [go (one 58) 147],
  row 147 [go (one 2) 69, go (one 48) 148, go (one 49) 217, go (one 50) 220, go (one 93) 460,
      go [(51, 57)] 223, go hexLetter 224],
  row 148 [go (one 46) 72, go (one 58) 152, go (one 93) 460, go xdigit 149],
  row 149 [go (one 58) 152, go (one 93) 460, go xdigit 150],
  row 150 [go (one 58) 152, go (one 93) 460, go xdigit 151],
  row 151 [go (one 58) 152, go (one 93) 460],
  row 152 [go (one 2) 69, go (one 48) 153, go (one 49) 209, go (one 50) 212, go [(51, 57)] 215,
      go hexLetter 216],
  row 153 [go (one 46) 72, go (one 58) 157, go (one 93) 460, go xdigit 154],
  row 154 [go (one 58) 157, go (one 93) 460, go xdigit 155],
  row 155 [go (one 58) 157, go (one 93) 460, go xdigit 156],
  row 156 [go (one 58) 157, go (one 93) 460],
  row 157 [go (one 2) 69, go (one 48) 158, go (one 49) 201, go (one 50) 204, go [(51, 57)] 207,
      go hexLetter 208],
  row 158 [go (one 46) 72, go (one 58) 162, go (one 93) 460, go xdigit 159],
  row 159 [go (one 58) 162, go (one 93) 460, go xdigit 160]],
  [row 160 [go (one 58) 162, go (one 93) 460, go xdigit 161],
  row 161 [go (one 58) 162, go (one 93) 460],
  row 162 [go (one 2) 69, go (one 48) 163, go (one 49) 193, go (one 50) 196, go [(51, 57)] 199,
      go hexLetter 200],
  row 163 [go (one 46) 72, go (one 58) 167, go (one 93) 460, go xdigit 164],
  row 164 [go (one 58) 167, go (one 93) 460, go xdigit 165],
  row 165 [go (one 58) 167, go (one 93) 460, go xdigit 166],
  row 166 [go (one 58) 167, go (one 93) 460],
  row 167 [go (one 2) 69, go (one 48) 168, go (one 49) 185, go (one 50) 188, go [(51, 57)] 191,
      go hexLetter 192],
  row 168 [go (one 46) 72, go (one 58) 172, go (one 93) 460, go xdigit 169],
  row 169 [go (one 58) 172, go (one 93) 460, go xdigit 170],
  row 170 [go (one 58) 172, go (one 93) 460, go xdigit 171],
  row 171 [go (one 58) 172, go (one 93) 460],
  row 172 [go (one 2) 69, go (one 48) 173, go (one 49) 177, go (one 50) 180, go [(51, 57)] 183,
      go hexLetter 184],
  row 173 [go (one 46) 72, go (one 58) 111, go (one 93) 460, go xdigit 174],
  row 174 [go (one 58) 111, go (one 93) 460, go xdigit 175],
  row 175 [go (one 58) 111, go (one 93) 460, go xdigit 176],
  row 176 [go (one 58) 111, go (one 93) 460],
  row 177 [go (one 46) 72, go (one 58) 111, go (one 93) 460, go digit 178, go hexLetter 174],
  row 178 [go (one 46) 72, go (one 58) 111, go (one 93) 460, go digit 179, go hexLetter 175],
  row 179 [go (one 46) 72, go (one 58) 111, go (one 93) 460, go xdigit 176]],
  [row 180 [go (one 46) 72, go (one 53) 182, go (one 58) 111, go (one 93) 460, go [(48, 52),
      (54, 57)] 181, go hexLetter 174],
  row 181 [go (one 46) 72, go (one 58) 111, go (one 93) 460, go xdigit 175],
  row 182 [go (one 46) 72, go (one 58) 111, go (one 93) 460, go [(48, 53)] 179, go [(54, 57),
      (65, 70), (97, 102)] 175],
  row 183 [go (one 46) 72, go (one 58) 111, go (one 93) 460, go digit 181, go hexLetter 174],
  row 184 [go (one 58) 111, go (one 93) 460, go xdigit 174],
  row 185 [go (one 46) 72, go (one 58) 172, go (one 93) 460, go digit 186, go hexLetter 169],
  row 186 [go (one 46) 72, go (one 58) 172, go (one 93) 460, go digit 187, go hexLetter 170],
  row 187 [go (one 46) 72, go (one 58) 172, go (one 93) 460, go xdigit 171],
  row 188 [go (one 46) 72, go (one 53) 190, go (one 58) 172, go (one 93) 460, go [(48, 52),
      (54, 57)] 189, go hexLetter 169],
  row 189 [go (one 46) 72, go (one 58) 172, go (one 93) 460, go xdigit 170],
  row 190 [go (one 46) 72, go (one 58) 172, go (one 93) 460, go [(48, 53)] 187, go [(54, 57),
      (65, 70), (97, 102)] 170],
  row 191 [go (one 46) 72, go (one 58) 172, go (one 93) 460, go digit 189, go hexLetter 169],
  row 192 [go (one 58) 172, go (one 93) 460, go xdigit 169],
  row 193 [go (one 46) 72, go (one 58) 167, go (one 93) 460, go digit 194, go hexLetter 164],
  row 194 [go (one 46) 72, go (one 58) 167, go (one 93) 460, go digit 195, go hexLetter 165],
  row 195 [go (one 46) 72, go (one 58) 167, go (one 93) 460, go xdigit 166],
  row 196 [go (one 46) 72, go (one 53) 198, go (one 58) 167, go (one 93) 460, go [(48, 52),
      (54, 57)] 197, go hexLetter 164],
  row 197 [go (one 46) 72, go (one 58) 167, go (one 93) 460, go xdigit 165],
  row 198 [go (one 46) 72, go (one 58) 167, go (one 93) 460, go [(48, 53)] 195, go [(54, 57),
      (65, 70), (97, 102)] 165],
  row 199 [go (one 46) 72, go (one 58) 167, go (one 93) 460, go digit 197, go hexLetter 164]],
  [row 200 [go (one 58) 167, go (one 93) 460, go xdigit 164],
  row 201 [go (one 46) 72, go (one 58) 162, go (one 93) 460, go digit 202, go hexLetter 159],
  row 202 [go (one 46) 72, go (one 58) 162, go (one 93) 460, go digit 203, go hexLetter 160],
  row 203 [go (one 46) 72, go (one 58) 162, go (one 93) 460, go xdigit 161],
  row 204 [go (one 46) 72, go (one 53) 206, go (one 58) 162, go (one 93) 460, go [(48, 52),
      (54, 57)] 205, go hexLetter 159],
  row 205 [go (one 46) 72, go (one 58) 162, go (one 93) 460, go xdigit 160],
  row 206 [go (one 46) 72, go (one 58) 162, go (one 93) 460, go [(48, 53)] 203, go [(54, 57),
      (65, 70), (97, 102)] 160],
  row 207 [go (one 46) 72, go (one 58) 162, go (one 93) 460, go digit 205, go hexLetter 159],
  row 208 [go (one 58) 162, go (one 93) 460, go xdigit 159],
  row 209 [go (one 46) 72, go (one 58) 157, go (one 93) 460, go digit 210, go hexLetter 154],
  row 210 [go (one 46) 72, go (one 58) 157, go (one 93) 460, go digit 211, go hexLetter 155],
  row 211 [go (one 46) 72, go (one 58) 157, go (one 93) 460, go xdigit 156],
  row 212 [go (one 46) 72, go (one 53) 214, go (one 58) 157, go (one 93) 460, go [(48, 52),
      (54, 57)] 213, go hexLetter 154],
  row 213 [go (one 46) 72, go (one 58) 157, go (one 93) 460, go xdigit 155],
  row 214 [go (one 46) 72, go (one 58) 157, go (one 93) 460, go [(48, 53)] 211, go [(54, 57),
      (65, 70), (97, 102)] 155],
  row 215 [go (one 46) 72, go (one 58) 157, go (one 93) 460, go digit 213, go hexLetter 154],
  row 216 [go (one 58) 157, go (one 93) 460, go xdigit 154],
  row 217 [go (one 46) 72, go (one 58) 152, go (one 93) 460, go digit 218, go hexLetter 149],
  row 218 [go (one 46) 72, go (one 58) 152, go (one 93) 460, go digit 219, go hexLetter 150],
  row 219 [go (one 46) 72, go (one 58) 152, go (one 93) 460, go xdigit 151]],
  [row 220 [go (one 46) 72, go (one 53) 222, go (one 58) 152, go (one 93) 460, go [(48, 52),
      (54, 57)] 221, go hexLetter 149],
  row 221 [go (one 46) 72, go (one 58) 152, go (one 93) 460, go xdigit 150],
  row 222 [go (one 46) 72, go (one 58) 152, go (one 93) 460, go [(48, 53)] 219, go [(54, 57),
      (65, 70), (97, 102)] 150],
  row 223 [go (one 46) 72, go (one 58) 152, go (one 93) 460, go digit 221, go hexLetter 149],
  row 224 [go (one 58) 152, go (one 93) 460, go xdigit 149],
  row 225 [go xdigit 226],
  row 226 [go (one 46) 227, go xdigit 226],
  row 227 [go (marks ++ digit ++ [(46, 46), (58, 58)]) 228],
  row 228 [go (one 93) 460, go (marks ++ digit ++ [(46, 46), (58, 58)]) 228],
  row 229 [go [(48, 52)] 230],
  row 230 [go digit 231],
  row 231 [go (one 46) 232],
  row 232 [go (one 2) 233, go (one 48) 235, go (one 49) 249, go (one 50) 251, go [(51, 57)] 250],
  row 233 [go [(48, 52)] 234],
  row 234 [go digit 235],
  row 235 [go (one 46) 236],
  row 236 [go (one 2) 237, go (one 48) 239, go (one 49) 245, go (one 50) 247, go [(51, 57)] 246],
  row 237 [go [(48, 52)] 238],
  row 238 [go digit 239],
  row 239 [go (one 46) 240]],
  [row 240 [go (one 2) 241, go (one 48) 512, go (one 49) 516, go (one 50) 518, go [(51, 57)] 517],
  row 241 [go [(48, 52)] 242],
  row 242 [go digit 512],
  row 243 [go xdigit 244],
  row 244 [go xdigit 513],
  row 245 [go (one 46) 240, go digit 246],
  row 246 [go (one 46) 240, go digit 239],
  row 247 [go (one 46) 240, go (one 53) 248, go [(48, 52), (54, 57)] 239],
  row 248 [go (one 46) 240, go [(48, 53)] 239],
  row 249 [go (one 46) 236, go digit 250],
  row 250 [go (one 46) 236, go digit 235],
  row 251 [go (one 46) 236, go (one 53) 252, go [(48, 52), (54, 57)] 235],
  row 252 [go (one 46) 236, go [(48, 53)] 235],
  row 253 [go xdigit 254],
  row 254 [go xdigit 520],
  row 255 [go (one 37) 256, ⟨one 64, 522, [saveUserinfo]⟩,
      go (marks ++ digit ++ [(46, 46), (58, 58)]) 255],
  row 256 [go xdigit 257],
  row 257 [go xdigit 255],
  row 258 [go xdigit 259],
  row 259 [go xdigit 523]],
  [row 260 [go (one 58) 368, go (one 118) 447, go xdigit 261],
  row 261 [go (one 58) 265, go xdigit 262],
  row 262 [go (one 58) 265, go xdigit 263],
  row 263 [go (one 58) 265, go xdigit 264],
  row 264 [go (one 58) 265],
  row 265 [go (one 58) 363, go xdigit 266],
  row 266 [go (one 58) 270, go xdigit 267],
  row 267 [go (one 58) 270, go xdigit 268],
  row 268 [go (one 58) 270, go xdigit 269],
  row 269 [go (one 58) 270],
  row 270 [go (one 58) 358, go xdigit 271],
  row 271 [go (one 58) 275, go xdigit 272],
  row 272 [go (one 58) 275, go xdigit 273],
  row 273 [go (one 58) 275, go xdigit 274],
  row 274 [go (one 58) 275],
  row 275 [go (one 58) 353, go xdigit 276],
  row 276 [go (one 58) 280, go xdigit 277],
  row 277 [go (one 58) 280, go xdigit 278],
  row 278 [go (one 58) 280, go xdigit 279],
  row 279 [go (one 58) 280]],
  [row 280 [go (one 58) 348, go xdigit 281],
  row 281 [go (one 58) 285, go xdigit 282],
  row 282 [go (one 58) 285, go xdigit 283],
  row 283 [go (one 58) 285, go xdigit 284],
  row 284 [go (one 58) 285],
  row 285 [go (one 58) 335, go xdigit 286],
  row 286 [go (one 58) 290, go xdigit 287],
  row 287 [go (one 58) 290, go xdigit 288],
  row 288 [go (one 58) 290, go xdigit 289],
  row 289 [go (one 58) 290],
  row 290 [go (one 2) 291, go (one 48) 318, go (one 49) 326, go (one 50) 329, go (one 58) 333,
      go [(51, 57)] 332, go hexLetter 334],
  row 291 [go [(48, 52)] 292],
  row 292 [go digit 293],
  row 293 [go (one 46) 294],
  row 294 [go (one 2) 295, go (one 48) 297, go (one 49) 314, go (one 50) 316, go [(51, 57)] 315],
  row 295 [go [(48, 52)] 296],
  row 296 [go digit 297],
  row 297 [go (one 46) 298],
  row 298 [go (one 2) 299, go (one 48) 301, go (one 49) 310, go (one 50) 312, go [(51, 57)] 311],
  row 299 [go [(48, 52)] 300]],
  [row 300 [go digit 301],
  row 301 [go (one 46) 302],
  row 302 [go (one 2) 303, go (one 48) 305, go (one 49) 306, go (one 50) 308, go [(51, 57)] 307],
  row 303 [go [(48, 52)] 304],
  row 304 [go digit 305],
  row 305 [go (one 93) 512],
  row 306 [go (one 93) 512, go digit 307],
  row 307 [go (one 93) 512, go digit 305],
  row 308 [go (one 53) 309, go (one 93) 512, go [(48, 52), (54, 57)] 305],
  row 309 [go (one 93) 512, go [(48, 53)] 305],
  row 310 [go (one 46) 302, go digit 311],
  row 311 [go (one 46) 302, go digit 301],
  row 312 [go (one 46) 302, go (one 53) 313, go [(48, 52), (54, 57)] 301],
  row 313 [go (one 46) 302, go [(48, 53)] 301],
  row 314 [go (one 46) 298, go digit 315],
  row 315 [go (one 46) 298, go digit 297],
  row 316 [go (one 46) 298, go (one 53) 317, go [(48, 52), (54, 57)] 297],
  row 317 [go (one 46) 298, go [(48, 53)] 297],
  row 318 [go (one 46) 294, go (one 58) 322, go xdigit 319],
  row 319 [go (one 58) 322, go xdigit 320]],
  [row 320 [go (one 58) 322, go xdigit 321],
  row 321 [go (one 58) 322],
  row 322 [go (one 58) 305, go xdigit 323],
  row 323 [go (one 93) 512, go xdigit 324],
  row 324 [go (one 93) 512, go xdigit 325],
  row 325 [go (one 93) 512, go xdigit 305],
  row 326 [go (one 46) 294, go (one 58) 322, go digit 327, go hexLetter 319],
  row 327 [go (one 46) 294, go (one 58) 322, go digit 328, go hexLetter 320],
  row 328 [go (one 46) 294, go (one 58) 322, go xdigit 321],
  row 329 [go (one 46) 294, go (one 53) 331, go (one 58) 322, go [(48, 52), (54, 57)] 330,
      go hexLetter 319],
  row 330 [go (one 46) 294, go (one 58) 322, go xdigit 320],
  row 331 [go (one 46) 294, go (one 58) 322, go [(48, 53)] 328, go [(54, 57), (65, 70),
      (97, 102)] 320],
  row 332 [go (one 46) 294, go (one 58) 322, go digit 330, go hexLetter 319],
  row 333 [go xdigit 323],
  row 334 [go (one 58) 322, go xdigit 319],
  row 335 [go (one 2) 291, go (one 48) 336, go (one 49) 340, go (one 50) 343, go [(51, 57)] 346,
      go hexLetter 347],
  row 336 [go (one 46) 294, go (one 58) 333, go xdigit 337],
  row 337 [go (one 58) 333, go xdigit 338],
  row 338 [go (one 58) 333, go xdigit 339],
  row 339 [go (one 58) 333]],
  [row 340 [go (one 46) 294, go (one 58) 333, go digit 341, go hexLetter 337],
  row 341 [go (one 46) 294, go (one 58) 333, go digit 342, go hexLetter 338],
  row 342 [go (one 46) 294, go (one 58) 333, go xdigit 339],
  row 343 [go (one 46) 294, go (one 53) 345, go (one 58) 333, go [(48, 52), (54, 57)] 344,
      go hexLetter 337],
  row 344 [go (one 46) 294, go (one 58) 333, go xdigit 338],
  row 345 [go (one 46) 294, go (one 58) 333, go [(48, 53)] 342, go [(54, 57), (65, 70),
      (97, 102)] 338],
  row 346 [go (one 46) 294, go (one 58) 333, go digit 344, go hexLetter 337],
  row 347 [go (one 58) 333, go xdigit 337],
  row 348 [go xdigit 349],
  row 349 [go (one 58) 335, go xdigit 350],
  row 350 [go (one 58) 335, go xdigit 351],
  row 351 [go (one 58) 335, go xdigit 352],
  row 352 [go (one 58) 335],
  row 353 [go xdigit 354],
  row 354 [go (one 58) 348, go xdigit 355],
  row 355 [go (one 58) 348, go xdigit 356],
  row 356 [go (one 58) 348, go xdigit 357],
  row 357 [go (one 58) 348],
  row 358 [go xdigit 359],
  row 359 [go (one 58) 353, go xdigit 360]],
  [row 360 [go (one 58) 353, go xdigit 361],
  row 361 [go (one 58) 353, go xdigit 362],
  row 362 [go (one 58) 353],
  row 363 [go xdigit 364],
  row 364 [go (one 58) 358, go xdigit 365],
  row 365 [go (one 58) 358, go xdigit 366],
  row 366 [go (one 58) 358, go xdigit 367],
  row 367 [go (one 58) 358],
  row 368 [go (one 58) 369],
  row 369 [go (one 2) 291, go (one 48) 370, go (one 49) 439, go (one 50) 442, go (one 93) 512,
      go [(51, 57)] 445, go hexLetter 446],
  row 370 [go (one 46) 294, go (one 58) 374, go (one 93) 512, go xdigit 371],
  row 371 [go (one 58) 374, go (one 93) 512, go xdigit 372],
  row 372 [go (one 58) 374, go (one 93) 512, go xdigit 373],
  row 373 [go (one 58) 374, go (one 93) 512],
  row 374 [go (one 2) 291, go (one 48) 375, go (one 49) 431, go (one 50) 434, go [(51, 57)] 437,
      go hexLetter 438],
  row 375 [go (one 46) 294, go (one 58) 379, go (one 93) 512, go xdigit 376],
  row 376 [go (one 58) 379, go (one 93) 512, go xdigit 377],
  row 377 [go (one 58) 379, go (one 93) 512, go xdigit 378],
  row 378 [go (one 58) 379, go (one 93) 512],
  row 379 [go (one 2) 291, go (one 48) 380, go (one 49) 423, go (one 50) 426, go [(51, 57)] 429,
      go hexLetter 430]],
  [row 380 [go (one 46) 294, go (one 58) 384, go (one 93) 512, go xdigit 381],
  row 381 [go (one 58) 384, go (one 93) 512, go xdigit 382],
  row 382 [go (one 58) 384, go (one 93) 512, go xdigit 383],
  row 383 [go (one 58) 384, go (one 93) 512],
  row 384 [go (one 2) 291, go (one 48) 385, go (one 49) 415, go (one 50) 418, go [(51, 57)] 421,
      go hexLetter 422],
  row 385 [go (one 46) 294, go (one 58) 389, go (one 93) 512, go xdigit 386],
  row 386 [go (one 58) 389, go (one 93) 512, go xdigit 387],
  row 387 [go (one 58) 389, go (one 93) 512, go xdigit 388],
  row 388 [go (one 58) 389, go (one 93) 512],
  row 389 [go (one 2) 291, go (one 48) 390, go (one 49) 407, go (one 50) 410, go [(51, 57)] 413,
      go hexLetter 414],
  row 390 [go (one 46) 294, go (one 58) 394, go (one 93) 512, go xdigit 391],
  row 391 [go (one 58) 394, go (one 93) 512, go xdigit 392],
  row 392 [go (one 58) 394, go (one 93) 512, go xdigit 393],
  row 393 [go (one 58) 394, go (one 93) 512],
  row 394 [go (one 2) 291, go (one 48) 395, go (one 49) 399, go (one 50) 402, go [(51, 57)] 405,
      go hexLetter 406],
  row 395 [go (one 46) 294, go (one 58) 333, go (one 93) 512, go xdigit 396],
  row 396 [go (one 58) 333, go (one 93) 512, go xdigit 397],
  row 397 [go (one 58) 333, go (one 93) 512, go xdigit 398],
  row 398 [go (one 58) 333, go (one 93) 512],
  row 399 [go (one 46) 294, go (one 58) 333, go (one 93) 512, go digit 400, go hexLetter 396]],
  [row 400 [go (one 46) 294, go (one 58) 333, go (one 93) 512, go digit 401, go hexLetter 397],
  row 401 [go (one 46) 294, go (one 58) 333, go (one 93) 512, go xdigit 398],
  row 402 [go (one 46) 294, go (one 53) 404, go (one 58) 333, go (one 93) 512, go [(48, 52),
      (54, 57)] 403, go hexLetter 396],
  row 403 [go (one 46) 294, go (one 58) 333, go (one 93) 512, go xdigit 397],
  row 404 [go (one 46) 294, go (one 58) 333, go (one 93) 512, go [(48, 53)] 401, go [(54, 57),
      (65, 70), (97, 102)] 397],
  row 405 [go (one 46) 294, go (one 58) 333, go (one 93) 512, go digit 403, go hexLetter 396],
  row 406 [go (one 58) 333, go (one 93) 512, go xdigit 396],
  row 407 [go (one 46) 294, go (one 58) 394, go (one 93) 512, go digit 408, go hexLetter 391],
  row 408 [go (one 46) 294, go (one 58) 394, go (one 93) 512, go digit 409, go hexLetter 392],
  row 409 [go (one 46) 294, go (one 58) 394, go (one 93) 512, go xdigit 393],
  row 410 [go (one 46) 294, go (one 53) 412, go (one 58) 394, go (one 93) 512, go [(48, 52),
      (54, 57)] 411, go hexLetter 391],
  row 411 [go (one 46) 294, go (one 58) 394, go (one 93) 512, go xdigit 392],
  row 412 [go (one 46) 294, go (one 58) 394, go (one 93) 512, go [(48, 53)] 409, go [(54, 57),
      (65, 70), (97, 102)] 392],
  row 413 [go (one 46) 294, go (one 58) 394, go (one 93) 512, go digit 411, go hexLetter 391],
  row 414 [go (one 58) 394, go (one 93) 512, go xdigit 391],
  row 415 [go (one 46) 294, go (one 58) 389, go (one 93) 512, go digit 416, go hexLetter 386],
  row 416 [go (one 46) 294, go (one 58) 389, go (one 93) 512, go digit 417, go hexLetter 387],
  row 417 [go (one 46) 294, go (one 58) 389, go (one 93) 512, go xdigit 388],
  row 418 [go (one 46) 294, go (one 53) 420, go (one 58) 389, go (one 93) 512, go [(48, 52),
      (54, 57)] 419, go hexLetter 386],
  row 419 [go (one 46) 294, go (one 58) 389, go (one 93) 512, go xdigit 387]],
  [row 420 [go (one 46) 294, go (one 58) 389, go (one 93) 512, go [(48, 53)] 417, go [(54, 57),
      (65, 70), (97, 102)] 387],
  row 421 [go (one 46) 294, go (one 58) 389, go (one 93) 512, go digit 419, go hexLetter 386],
  row 422 [go (one 58) 389, go (one 93) 512, go xdigit 386],
  row 423 [go (one 46) 294, go (one 58) 384, go (one 93) 512, go digit 424, go hexLetter 381],
  row 424 [go (one 46) 294, go (one 58) 384, go (one 93) 512, go digit 425, go hexLetter 382],
  row 425 [go (one 46) 294, go (one 58) 384, go (one 93) 512, go xdigit 383],
  row 426 [go (one 46) 294, go (one 53) 428, go (one 58) 384, go (one 93) 512, go [(48, 52),
      (54, 57)] 427, go hexLetter 381],
  row 427 [go (one 46) 294, go (one 58) 384, go (one 93) 512, go xdigit 382],
  row 428 [go (one 46) 294, go (one 58) 384, go (one 93) 512, go [(48, 53)] 425, go [(54, 57),
      (65, 70), (97, 102)] 382],
  row 429 [go (one 46) 294, go (one 58) 384, go (one 93) 512, go digit 427, go hexLetter 381],
  row 430 [go (one 58) 384, go (one 93) 512, go xdigit 381],
  row 431 [go (one 46) 294, go (one 58) 379, go (one 93) 512, go digit 432, go hexLetter 376],
  row 432 [go (one 46) 294, go (one 58) 379, go (one 93) 512, go digit 433, go hexLetter 377],
  row 433 [go (one 46) 294, go (one 58) 379, go (one 93) 512, go xdigit 378],
  row 434 [go (one 46) 294, go (one 53) 436, go (one 58) 379, go (one 93) 512, go [(48, 52),
      (54, 57)] 435, go hexLetter 376],
  row 435 [go (one 46) 294, go (one 58) 379, go (one 93) 512, go xdigit 377],
  row 436 [go (one 46) 294, go (one 58) 379, go (one 93) 512, go [(48, 53)] 433, go [(54, 57),
      (65, 70), (97, 102)] 377],
  row 437 [go (one 46) 294, go (one 58) 379, go (one 93) 512, go digit 435, go hexLetter 376],
  row 438 [go (one 58) 379, go (one 93) 512, go xdigit 376],
  row 439 [go (one 46) 294, go (one 58) 374, go (one 93) 512, go digit 440, go hexLetter 371]],
  [row 440 [go (one 46) 294, go (one 58) 374, go (one 93) 512, go digit 441, go hexLetter 372],
  row 441 [go (one 46) 294, go (one 58) 374, go (one 93) 512, go xdigit 373],
  row 442 [go (one 46) 294, go (one 53) 444, go (one 58) 374, go (one 93) 512, go [(48, 52),
      (54, 57)] 443, go hexLetter 371],
  row 443 [go (one 46) 294, go (one 58) 374, go (one 93) 512, go xdigit 372],
  row 444 [go (one 46) 294, go (one 58) 374, go (one 93) 512, go [(48, 53)] 441, go [(54, 57),
      (65, 70), (97, 102)] 372],
  row 445 [go (one 46) 294, go (one 58) 374, go (one 93) 512, go digit 443, go hexLetter 371],
  row 446 [go (one 58) 374, go (one 93) 512, go xdigit 371],
  row 447 [go xdigit 448],
  row 448 [go (one 46) 449, go xdigit 448],
  row 449 [go (marks ++ digit ++ [(46, 46), (58, 58)]) 450],
  row 450 [go (one 93) 512, go (marks ++ digit ++ [(46, 46), (58, 58)]) 450],
  endRow 451 [] (458, []) [go (one 37) 3, go [(33, 33), (36, 36), (38, 46), (48, 57), (59, 59),
      (61, 61), (64, 64), (95, 95), (126, 126), (128, 255)] 452, ⟨alpha, 508, [markU]⟩],
  endRow 452 [] (455, []) [go (one 37) 3,
      go (marks ++ nonAscii ++ digit ++ [(46, 46), (64, 64)]) 452],
  row 453 [⟨one 37, 1, [markU]⟩,
      ⟨marks ++ nonAscii ++ digit ++ [(46, 47), (58, 58), (63, 64)], 454, [markU]⟩] [markU,
      saveFragment],
  row 454 [go (one 37) 1,
      go (marks ++ nonAscii ++ digit ++ [(46, 47), (58, 58), (63, 64)]) 454] [saveFragment],
  row 455 [go (one 35) 453, go (one 37) 5, go (one 63) 456,
      go (marks ++ nonAscii ++ digit ++ [(46, 47), (58, 58), (64, 64)]) 455],
  row 456 [⟨one 35, 453, [markU, saveQuery]⟩, ⟨one 37, 7, [markU]⟩,
      ⟨marks ++ nonAscii ++ digit ++ [(46, 47), (58, 58), (63, 64)], 457, [markU]⟩] [markU,
      saveQuery],
  row 457 [⟨one 35, 453, [saveQuery]⟩, go (one 37) 7,
      go (marks ++ nonAscii ++ digit ++ [(46, 47), (58, 58), (63, 64)]) 457] [saveQuery],
  endRow 458 [] (459, []) [go (one 37) 5,
      go (marks ++ nonAscii ++ digit ++ [(46, 46), (58, 58), (64, 64)]) 455],
  endRow 459 [markH, saveHost] (455, [markH, saveHost]) [⟨one 2, 9, [markH]⟩,
      ⟨one 37, 31, [markH]⟩, ⟨one 48, 490, [markH]⟩, ⟨one 49, 504, [markH]⟩,
      ⟨one 50, 506, [markH]⟩, ⟨one 58, 468, [markH, saveHost]⟩,
      ⟨one 64, 469, [markH, saveUserinfo]⟩, ⟨one 91, 38, [markH]⟩,
      ⟨marks ++ [(46, 46)], 467, [markH]⟩, ⟨[(51, 57)], 505, [markH]⟩]],
  [refHost 460 [⟨one 58, 461, [saveHost]⟩],
  endRow 461 [markH, savePort] (455, [markH, savePort]) [⟨digit, 462, [markH]⟩],
  endRow 462 [savePort] (455, [savePort]) [go digit 462],
  refHost 463 [⟨one 58, 461, [saveHost]⟩, go digit 464],
  refHost 464 [⟨one 58, 461, [saveHost]⟩, go digit 460],
  refHost 465 [go (one 53) 466, ⟨one 58, 461, [saveHost]⟩, go [(48, 52), (54, 57)] 460],
  refHost 466 [⟨one 58, 461, [saveHost]⟩, go [(48, 53)] 460],
  refHost 467 [go (one 37) 31, ⟨one 58, 468, [saveHost]⟩, ⟨one 64, 469, [saveUserinfo]⟩,
      go (marks ++ digit ++ [(46, 46)]) 467],
  endRow 468 [markH, savePort] (455, [markH, savePort]) [go (one 37) 34,
      ⟨one 64, 469, [saveUserinfo]⟩, go (marks ++ [(46, 46), (58, 58)]) 33, ⟨digit, 489, [markH]⟩],
  endRow 469 [markH, saveHost] (455, [markH, saveHost]) [⟨one 2, 9, [markH]⟩,
      ⟨one 37, 36, [markH]⟩, ⟨one 48, 471, [markH]⟩, ⟨one 49, 485, [markH]⟩,
      ⟨one 50, 487, [markH]⟩, ⟨one 58, 461, [markH, saveHost]⟩, ⟨one 91, 38, [markH]⟩,
      ⟨marks ++ [(46, 46)], 470, [markH]⟩, ⟨[(51, 57)], 486, [markH]⟩],
  refHost 470 [go (one 37) 36, ⟨one 58, 461, [saveHost]⟩, go (marks ++ digit ++ [(46, 46)]) 470],
  refHost 471 [go (one 37) 36, go (one 46) 472, ⟨one 58, 461, [saveHost]⟩,
      go (marks ++ digit) 470],
  refHost 472 [go (one 2) 13, go (one 37) 36, go (one 48) 473, go (one 49) 481, go (one 50) 483,
      ⟨one 58, 461, [saveHost]⟩, go (marks ++ [(46, 46)]) 470, go [(51, 57)] 482],
  refHost 473 [go (one 37) 36, go (one 46) 474, ⟨one 58, 461, [saveHost]⟩,
      go (marks ++ digit) 470],
  refHost 474 [go (one 2) 17, go (one 37) 36, go (one 48) 475, go (one 49) 477, go (one 50) 479,
      ⟨one 58, 461, [saveHost]⟩, go (marks ++ [(46, 46)]) 470, go [(51, 57)] 478],
  refHost 475 [go (one 37) 36, go (one 46) 476, ⟨one 58, 461, [saveHost]⟩,
      go (marks ++ digit) 470],
  refHost 476 [go (one 2) 21, go (one 37) 36, ⟨one 58, 461, [saveHost]⟩,
      go (marks ++ digit ++ [(46, 46)]) 470],
  refHost 477 [go (one 37) 36, go (one 46) 476, ⟨one 58, 461, [saveHost]⟩, go marks 470,
      go digit 478],
  refHost 478 [go (one 37) 36, go (one 46) 476, ⟨one 58, 461, [saveHost]⟩, go marks 470,
      go digit 475],
  refHost 479 [go (one 37) 36, go (one 46) 476, go (one 53) 480, ⟨one 58, 461, [saveHost]⟩,
      go marks 470, go [(48, 52), (54, 57)] 475]],
  [refHost 480 [go (one 37) 36, go (one 46) 476, ⟨one 58, 461, [saveHost]⟩,
      go (marks ++ [(54, 57)]) 470, go [(48, 53)] 475],
  refHost 481 [go (one 37) 36, go (one 46) 474, ⟨one 58, 461, [saveHost]⟩, go marks 470,
      go digit 482],
  refHost 482 [go (one 37) 36, go (one 46) 474, ⟨one 58, 461, [saveHost]⟩, go marks 470,
      go digit 473],
  refHost 483 [go (one 37) 36, go (one 46) 474, go (one 53) 484, ⟨one 58, 461, [saveHost]⟩,
      go marks 470, go [(48, 52), (54, 57)] 473],
  refHost 484 [go (one 37) 36, go (one 46) 474, ⟨one 58, 461, [saveHost]⟩,
      go (marks ++ [(54, 57)]) 470, go [(48, 53)] 473],
  refHost 485 [go (one 37) 36, go (one 46) 472, ⟨one 58, 461, [saveHost]⟩, go marks 470,
      go digit 486],
  refHost 486 [go (one 37) 36, go (one 46) 472, ⟨one 58, 461, [saveHost]⟩, go marks 470,
      go digit 471],
  refHost 487 [go (one 37) 36, go (one 46) 472, go (one 53) 488, ⟨one 58, 461, [saveHost]⟩,
      go marks 470, go [(48, 52), (54, 57)] 471],
  refHost 488 [go (one 37) 36, go (one 46) 472, ⟨one 58, 461, [saveHost]⟩,
      go (marks ++ [(54, 57)]) 470, go [(48, 53)] 471],
  endRow 489 [savePort] (455, [savePort]) [go (one 37) 34, ⟨one 64, 469, [saveUserinfo]⟩,
      go (marks ++ [(46, 46), (58, 58)]) 33, go digit 489],
  refHost 490 [go (one 37) 31, go (one 46) 491, ⟨one 58, 468, [saveHost]⟩,
      ⟨one 64, 469, [saveUserinfo]⟩, go (marks ++ digit) 467],
  refHost 491 [go (one 2) 13, go (one 37) 31, go (one 48) 492, go (one 49) 500, go (one 50) 502,
      ⟨one 58, 468, [saveHost]⟩, ⟨one 64, 469, [saveUserinfo]⟩, go (marks ++ [(46, 46)]) 467,
      go [(51, 57)] 501],
  refHost 492 [go (one 37) 31, go (one 46) 493, ⟨one 58, 468, [saveHost]⟩,
      ⟨one 64, 469, [saveUserinfo]⟩, go (marks ++ digit) 467],
  refHost 493 [go (one 2) 17, go (one 37) 31, go (one 48) 494, go (one 49) 496, go (one 50) 498,
      ⟨one 58, 468, [saveHost]⟩, ⟨one 64, 469, [saveUserinfo]⟩, go (marks ++ [(46, 46)]) 467,
      go [(51, 57)] 497],
  refHost 494 [go (one 37) 31, go (one 46) 495, ⟨one 58, 468, [saveHost]⟩,
      ⟨one 64, 469, [saveUserinfo]⟩, go (marks ++ digit) 467],
  refHost 495 [go (one 2) 21, go (one 37) 31, ⟨one 58, 468, [saveHost]⟩,
      ⟨one 64, 469, [saveUserinfo]⟩, go (marks ++ digit ++ [(46, 46)]) 467],
  refHost 496 [go (one 37) 31, go (one 46) 495, ⟨one 58, 468, [saveHost]⟩,
      ⟨one 64, 469, [saveUserinfo]⟩, go marks 467, go digit 497],
  refHost 497 [go (one 37) 31, go (one 46) 495, ⟨one 58, 468, [saveHost]⟩,
      ⟨one 64, 469, [saveUserinfo]⟩, go marks 467, go digit 494],
  refHost 498 [go (one 37) 31, go (one 46) 495, go (one 53) 499, ⟨one 58, 468, [saveHost]⟩,
      ⟨one 64, 469, [saveUserinfo]⟩, go marks 467, go [(48, 52), (54, 57)] 494],
  refHost 499 [go (one 37) 31, go (one 46) 495, ⟨one 58, 468, [saveHost]⟩,
      ⟨one 64, 469, [saveUserinfo]⟩, go (marks ++ [(54, 57)]) 467, go [(48, 53)] 494]],
  [refHost 500 [go (one 37) 31, go (one 46) 493, ⟨one 58, 468, [saveHost]⟩,
      ⟨one 64, 469, [saveUserinfo]⟩, go marks 467, go digit 501],
  refHost 501 [go (one 37) 31, go (one 46) 493, ⟨one 58, 468, [saveHost]⟩,
      ⟨one 64, 469, [saveUserinfo]⟩, go marks 467, go digit 492],
  refHost 502 [go (one 37) 31, go (one 46) 493, go (one 53) 503, ⟨one 58, 468, [saveHost]⟩,
      ⟨one 64, 469, [saveUserinfo]⟩, go marks 467, go [(48, 52), (54, 57)] 492],
  refHost 503 [go (one 37) 31, go (one 46) 493, ⟨one 58, 468, [saveHost]⟩,
      ⟨one 64, 469, [saveUserinfo]⟩, go (marks ++ [(54, 57)]) 467, go [(48, 53)] 492],
  refHost 504 [go (one 37) 31, go (one 46) 491, ⟨one 58, 468, [saveHost]⟩,
      ⟨one 64, 469, [saveUserinfo]⟩, go marks 467, go digit 505],
  refHost 505 [go (one 37) 31, go (one 46) 491, ⟨one 58, 468, [saveHost]⟩,
      ⟨one 64, 469, [saveUserinfo]⟩, go marks 467, go digit 490],
  refHost 506 [go (one 37) 31, go (one 46) 491, go (one 53) 507, ⟨one 58, 468, [saveHost]⟩,
      ⟨one 64, 469, [saveUserinfo]⟩, go marks 467, go [(48, 52), (54, 57)] 490],
  refHost 507 [go (one 37) 31, go (one 46) 491, ⟨one 58, 468, [saveHost]⟩,
      ⟨one 64, 469, [saveUserinfo]⟩, go (marks ++ [(54, 57)]) 467, go [(48, 53)] 490],
  endRow 508 [] (455, []) [go (one 37) 3, ⟨one 58, 509, [saveScheme]⟩, go [(33, 33), (36, 36),
      (38, 42), (44, 44), (59, 59), (61, 61), (64, 64), (95, 95), (126, 126), (128, 255)] 452,
      go [(43, 43), (45, 46), (48, 57), (65, 90), (97, 122)] 508],
  endRow 509 [] (510, []) [go (one 37) 5,
      go (marks ++ nonAscii ++ digit ++ [(46, 46), (58, 58), (64, 64)]) 455],
  endRow 510 [] (511, []) [go (one 37) 5,
      go (marks ++ nonAscii ++ digit ++ [(46, 46), (58, 58), (64, 64)]) 455],
  endRow 511 [markH, saveHost, savePath] (513, [markH, saveHost]) [⟨one 2, 229, [markH]⟩,
      ⟨one 37, 253, [markH]⟩, ⟨one 48, 543, [markH]⟩, ⟨one 49, 557, [markH]⟩,
      ⟨one 50, 559, [markH]⟩, ⟨one 58, 521, [markH, saveHost]⟩,
      ⟨one 64, 522, [markH, saveUserinfo]⟩, ⟨one 91, 260, [markH]⟩,
      ⟨marks ++ [(46, 46)], 520, [markH]⟩, ⟨[(51, 57)], 558, [markH]⟩],
  uriHost 512 [⟨one 58, 514, [saveHost]⟩],
  row 513 [⟨one 35, 453, [savePath]⟩, go (one 37) 243, ⟨one 63, 456, [savePath]⟩,
      go (marks ++ nonAscii ++ digit ++ [(46, 47), (58, 58), (64, 64)]) 513] [savePath],
  endRow 514 [markH, savePort, savePath] (513, [markH, savePort]) [⟨digit, 515, [markH]⟩],
  endRow 515 [savePort, markH, savePath] (513, [savePort, markH]) [go digit 515],
  uriHost 516 [⟨one 58, 514, [saveHost]⟩, go digit 517],
  uriHost 517 [⟨one 58, 514, [saveHost]⟩, go digit 512],
  uriHost 518 [go (one 53) 519, ⟨one 58, 514, [saveHost]⟩, go [(48, 52), (54, 57)] 512],
  uriHost 519 [⟨one 58, 514, [saveHost]⟩, go [(48, 53)] 512]],
  [uriHost 520 [go (one 37) 253, ⟨one 58, 521, [saveHost]⟩, ⟨one 64, 522, [saveUserinfo]⟩,
      go (marks ++ digit ++ [(46, 46)]) 520],
  endRow 521 [markH, savePort, savePath] (513, [markH, savePort]) [go (one 37) 256,
      ⟨one 64, 522, [saveUserinfo]⟩, go (marks ++ [(46, 46), (58, 58)]) 255,
      ⟨digit, 542, [markH]⟩],
  endRow 522 [markH, saveHost, savePath] (513, [markH, saveHost]) [⟨one 2, 229, [markH]⟩,
      ⟨one 37, 258, [markH]⟩, ⟨one 48, 524, [markH]⟩, ⟨one 49, 538, [markH]⟩,
      ⟨one 50, 540, [markH]⟩, ⟨one 58, 514, [markH, saveHost]⟩, ⟨one 91, 260, [markH]⟩,
      ⟨marks ++ [(46, 46)], 523, [markH]⟩, ⟨[(51, 57)], 539, [markH]⟩],
  uriHost 523 [go (one 37) 258, ⟨one 58, 514, [saveHost]⟩, go (marks ++ digit ++ [(46, 46)]) 523],
  uriHost 524 [go (one 37) 258, go (one 46) 525, ⟨one 58, 514, [saveHost]⟩,
      go (marks ++ digit) 523],
  uriHost 525 [go (one 2) 233, go (one 37) 258, go (one 48) 526, go (one 49) 534, go (one 50) 536,
      ⟨one 58, 514, [saveHost]⟩, go (marks ++ [(46, 46)]) 523, go [(51, 57)] 535],
  uriHost 526 [go (one 37) 258, go (one 46) 527, ⟨one 58, 514, [saveHost]⟩,
      go (marks ++ digit) 523],
  uriHost 527 [go (one 2) 237, go (one 37) 258, go (one 48) 528, go (one 49) 530, go (one 50) 532,
      ⟨one 58, 514, [saveHost]⟩, go (marks ++ [(46, 46)]) 523, go [(51, 57)] 531],
  uriHost 528 [go (one 37) 258, go (one 46) 529, ⟨one 58, 514, [saveHost]⟩,
      go (marks ++ digit) 523],
  uriHost 529 [go (one 2) 241, go (one 37) 258, ⟨one 58, 514, [saveHost]⟩,
      go (marks ++ digit ++ [(46, 46)]) 523],
  uriHost 530 [go (one 37) 258, go (one 46) 529, ⟨one 58, 514, [saveHost]⟩, go marks 523,
      go digit 531],
  uriHost 531 [go (one 37) 258, go (one 46) 529, ⟨one 58, 514, [saveHost]⟩, go marks 523,
      go digit 528],
  uriHost 532 [go (one 37) 258, go (one 46) 529, go (one 53) 533, ⟨one 58, 514, [saveHost]⟩,
      go marks 523, go [(48, 52), (54, 57)] 528],
  uriHost 533 [go (one 37) 258, go (one 46) 529, ⟨one 58, 514, [saveHost]⟩,
      go (marks ++ [(54, 57)]) 523, go [(48, 53)] 528],
  uriHost 534 [go (one 37) 258, go (one 46) 527, ⟨one 58, 514, [saveHost]⟩, go marks 523,
      go digit 535],
  uriHost 535 [go (one 37) 258, go (one 46) 527, ⟨one 58, 514, [saveHost]⟩, go marks 523,
      go digit 526],
  uriHost 536 [go (one 37) 258, go (one 46) 527, go (one 53) 537, ⟨one 58, 514, [saveHost]⟩,
      go marks 523, go [(48, 52), (54, 57)] 526],
  uriHost 537 [go (one 37) 258, go (one 46) 527, ⟨one 58, 514, [saveHost]⟩,
      go (marks ++ [(54, 57)]) 523, go [(48, 53)] 526],
  uriHost 538 [go (one 37) 258, go (one 46) 525, ⟨one 58, 514, [saveHost]⟩, go marks 523,
      go digit 539],
  uriHost 539 [go (one 37) 258, go (one 46) 525, ⟨one 58, 514, [saveHost]⟩, go marks 523,
      go digit 524]],
  [uriHost 540 [go (one 37) 258, go (one 46) 525, go (one 53) 541, ⟨one 58, 514, [saveHost]⟩,
      go marks 523, go [(48, 52), (54, 57)] 524],
  uriHost 541 [go (one 37) 258, go (one 46) 525, ⟨one 58, 514, [saveHost]⟩,
      go (marks ++ [(54, 57)]) 523, go [(48, 53)] 524],
  endRow 542 [savePort, markH, savePath] (513, [savePort, markH]) [go (one 37) 256,
      ⟨one 64, 522, [saveUserinfo]⟩, go (marks ++ [(46, 46), (58, 58)]) 255, go digit 542],
  uriHost 543 [go (one 37) 253, go (one 46) 544, ⟨one 58, 521, [saveHost]⟩,
      ⟨one 64, 522, [saveUserinfo]⟩, go (marks ++ digit) 520],
  uriHost 544 [go (one 2) 233, go (one 37) 253, go (one 48) 545, go (one 49) 553, go (one 50) 555,
      ⟨one 58, 521, [saveHost]⟩, ⟨one 64, 522, [saveUserinfo]⟩, go (marks ++ [(46, 46)]) 520,
      go [(51, 57)] 554],
  uriHost 545 [go (one 37) 253, go (one 46) 546, ⟨one 58, 521, [saveHost]⟩,
      ⟨one 64, 522, [saveUserinfo]⟩, go (marks ++ digit) 520],
  uriHost 546 [go (one 2) 237, go (one 37) 253, go (one 48) 547, go (one 49) 549, go (one 50) 551,
      ⟨one 58, 521, [saveHost]⟩, ⟨one 64, 522, [saveUserinfo]⟩, go (marks ++ [(46, 46)]) 520,
      go [(51, 57)] 550],
  uriHost 547 [go (one 37) 253, go (one 46) 548, ⟨one 58, 521, [saveHost]⟩,
      ⟨one 64, 522, [saveUserinfo]⟩, go (marks ++ digit) 520],
  uriHost 548 [go (one 2) 241, go (one 37) 253, ⟨one 58, 521, [saveHost]⟩,
      ⟨one 64, 522, [saveUserinfo]⟩, go (marks ++ digit ++ [(46, 46)]) 520],
  uriHost 549 [go (one 37) 253, go (one 46) 548, ⟨one 58, 521, [saveHost]⟩,
      ⟨one 64, 522, [saveUserinfo]⟩, go marks 520, go digit 550],
  uriHost 550 [go (one 37) 253, go (one 46) 548, ⟨one 58, 521, [saveHost]⟩,
      ⟨one 64, 522, [saveUserinfo]⟩, go marks 520, go digit 547],
  uriHost 551 [go (one 37) 253, go (one 46) 548, go (one 53) 552, ⟨one 58, 521, [saveHost]⟩,
      ⟨one 64, 522, [saveUserinfo]⟩, go marks 520, go [(48, 52), (54, 57)] 547],
  uriHost 552 [go (one 37) 253, go (one 46) 548, ⟨one 58, 521, [saveHost]⟩,
      ⟨one 64, 522, [saveUserinfo]⟩, go (marks ++ [(54, 57)]) 520, go [(48, 53)] 547],
  uriHost 553 [go (one 37) 253, go (one 46) 546, ⟨one 58, 521, [saveHost]⟩,
      ⟨one 64, 522, [saveUserinfo]⟩, go marks 520, go digit 554],
  uriHost 554 [go (one 37) 253, go (one 46) 546, ⟨one 58, 521, [saveHost]⟩,
      ⟨one 64, 522, [saveUserinfo]⟩, go marks 520, go digit 545],
  uriHost 555 [go (one 37) 253, go (one 46) 546, go (one 53) 556, ⟨one 58, 521, [saveHost]⟩,
      ⟨one 64, 522, [saveUserinfo]⟩, go marks 520, go [(48, 52), (54, 57)] 545],
  uriHost 556 [go (one 37) 253, go (one 46) 546, ⟨one 58, 521, [saveHost]⟩,
      ⟨one 64, 522, [saveUserinfo]⟩, go (marks ++ [(54, 57)]) 520, go [(48, 53)] 545],
  uriHost 557 [go (one 37) 253, go (one 46) 544, ⟨one 58, 521, [saveHost]⟩,
      ⟨one 64, 522, [saveUserinfo]⟩, go marks 520, go digit 558],
  uriHost 558 [go (one 37) 253, go (one 46) 544, ⟨one 58, 521, [saveHost]⟩,
      ⟨one 64, 522, [saveUserinfo]⟩, go marks 520, go digit 543],
  uriHost 559 [go (one 37) 253, go (one 46) 544, go (one 53) 560, ⟨one 58, 521, [saveHost]⟩,
      ⟨one 64, 522, [saveUserinfo]⟩, go marks 520, go [(48, 52), (54, 57)] 543]],
  [uriHost 560 [go (one 37) 253, go (one 46) 544, ⟨one 58, 521, [saveHost]⟩,
      ⟨one 64, 522, [saveUserinfo]⟩, go (marks ++ [(54, 57)]) 520, go [(48, 53)] 543]]]

/-- The row of a state. -/
def find (s : Nat) : Option UriRow := rows[s / 20]?.bind fun block => block[s % 20]?

end UriRow

/-- `uri_parser` of `uri.cpp`. -/
def uriParserScanner : Scanner UriAction where
  start := 451
  firstFinal := 451
  breaks _ := false
  row s :=
    match UriRow.find s with
    | some r => ⟨r.edges, 0, []⟩
    | none => ⟨[], 0, []⟩

/-- The actions at the end of a text that ends in a state. -/
def uriParserEof (s : Nat) : List UriAction :=
  match UriRow.find s with
  | some r => r.eof
  | none => []

end CppServerFramework.HTTP

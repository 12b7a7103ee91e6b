import Mathlib.Tactic.Common

/-!
# Log patterns

`LogFormatter::init` (`log.cpp:422-562`) takes a pattern apart into literals and directives.  The
C++ loops are written with a bound on their turns; each turn raises the index, so the length of
the pattern is enough.
-/

namespace CppServerFramework.Log

/-- A `std::string` literal. -/
def str (s : String) : List UInt8 := s.toUTF8.toList

/-- `isalpha` in the C locale. -/
def isAlpha (c : UInt8) : Bool := (65 ≤ c && c ≤ 90) || (97 ≤ c && c ≤ 122)

/-- The subclasses of `LogFormatter::FormatItem`. -/
inductive FormatItem where
  | message
  | level
  | elapse
  | name
  | threadId
  | newLine
  | dateTime (format : List UInt8)
  | filename
  | line
  | tab
  | fiberId
  | threadName
  | string (s : List UInt8)
  deriving DecidableEq, Repr

/-- `DateTimeFormatItem` has a format of its own for an empty one. -/
def dateTimeFormatItem (fmt : List UInt8) : FormatItem :=
  .dateTime (if fmt = [] then str "%Y-%m-%d %H:%M:%S" else fmt)

/-- `s_format_items` (`log.cpp:515-533`). -/
def formatItems : List (List UInt8 × (List UInt8 → FormatItem)) :=
  [(str "m", fun _ => .message), (str "p", fun _ => .level), (str "r", fun _ => .elapse),
    (str "c", fun _ => .name), (str "t", fun _ => .threadId), (str "n", fun _ => .newLine),
    (str "d", dateTimeFormatItem), (str "f", fun _ => .filename), (str "l", fun _ => .line),
    (str "T", fun _ => .tab), (str "F", fun _ => .fiberId), (str "N", fun _ => .threadName)]

namespace LogFormatter

/-- `std::string::substr`. -/
def substr (s : List UInt8) (pos len : Nat) : List UInt8 := (s.drop pos).take len

/-- The variables of the loop over one directive. -/
structure Directive where
  n : Nat
  fmtStatus : Nat := 0
  fmtBegin : Nat := 0
  str : List UInt8 := []
  fmt : List UInt8 := []

/-- The loop over the directive behind the `%` at `i` (`log.cpp:444-478`). -/
def scan (pattern : List UInt8) (i : Nat) : Nat → Directive → Directive
  | 0, d => d
  | turns + 1, d =>
    match pattern[d.n]? with
    | none => d
    | some c =>
      if d.fmtStatus = 0 ∧ (isAlpha c = false ∧ c ≠ 123 ∧ c ≠ 125) then
        { d with str := substr pattern (i + 1) (d.n - i - 1) }
      else if d.fmtStatus = 0 ∧ c = 123 then
        scan pattern i turns
          { d with
            str := substr pattern (i + 1) (d.n - i - 1), fmtStatus := 1, fmtBegin := d.n,
            n := d.n + 1 }
      else if d.fmtStatus = 1 ∧ c = 125 then
        { d with
          fmt := substr pattern (d.fmtBegin + 1) (d.n - d.fmtBegin - 1), fmtStatus := 0,
          n := d.n + 1 }
      else
        let n := d.n + 1
        let str := if n = pattern.length ∧ d.str = [] then pattern.drop (i + 1) else d.str
        scan pattern i turns { d with n := n, str := str }

/-- An entry of `vec`. -/
inductive Part where
  | literal (s : List UInt8)
  | directive (str fmt : List UInt8)
  deriving DecidableEq, Repr

/-- The variables of the loop over the pattern. -/
structure Parts where
  i : Nat := 0
  nstr : List UInt8 := []
  vec : List Part := []
  error : Bool := false

/-- The text that is pending goes to `vec`. -/
def Parts.flush (p : Parts) : Parts :=
  if p.nstr = [] then p else { p with vec := p.vec ++ [.literal p.nstr], nstr := [] }

/-- The loop over the pattern (`log.cpp:425-509`). -/
def split (pattern : List UInt8) : Nat → Parts → Parts
  | 0, p => p
  | turns + 1, p =>
    match pattern[p.i]? with
    | none => p
    | some c =>
      if c ≠ 37 then split pattern turns { p with nstr := p.nstr ++ [c], i := p.i + 1 }
      else if pattern[p.i + 1]? = some 37 then
        split pattern turns { p with nstr := p.nstr ++ [37], i := p.i + 1 }
      else
        let d := scan pattern p.i pattern.length { n := p.i + 1 }
        if d.fmtStatus = 0 then
          let p := p.flush
          split pattern turns { p with vec := p.vec ++ [.directive d.str d.fmt], i := d.n }
        else
          split pattern turns
            { p with
              error := true, vec := p.vec ++ [.literal (str "<pattern_error>")], i := p.i + 1 }

/-- One entry of `vec` becomes an item; a directive that is not in the table is an error. -/
def item : Part → FormatItem × Bool
  | .literal s => (.string s, false)
  | .directive name fmt =>
    match formatItems.find? (·.1 = name) with
    | some (_, make) => (make fmt, false)
    | none => (.string (str "<error_format " ++ name ++ str ">"), true)

end LogFormatter

/-- `LogFormatter` (`log.h:148-180`). -/
structure LogFormatter where
  items : List FormatItem
  error : Bool

/-- `LogFormatter::init` (`log.cpp:422-562`). -/
def LogFormatter.init (pattern : List UInt8) : LogFormatter :=
  let p := (split pattern pattern.length {}).flush
  let items := p.vec.map item
  { items := items.map Prod.fst, error := p.error || items.any Prod.snd }

/-- `isError` of the formatter that a pattern makes. -/
def LogFormatter.isError (pattern : List UInt8) : Bool := (init pattern).error

example : (LogFormatter.init (str "a %d\x7b%H\x7d%n")).items =
    [.string (str "a "), .dateTime (str "%H"), .newLine] := by
  decide +kernel

end CppServerFramework.Log

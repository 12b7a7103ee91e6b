import CppServerFramework.HTTP.Http
import CppServerFramework.HTTP.ResponseTable
import CppServerFramework.Misc.CInt

/-!
# The response parser

`HttpResponseParser` (`http_parser.cpp`) and `httpclient_parser_execute` (`httprespond_parser.rl`).
As for requests, the buffer is given with all its memory.  Unlike the other parser this one clears
its positions at every call.
-/

namespace CppServerFramework.HTTP
open CInt

def isSpace (b : UInt8) : Bool := b = 32 || (9 ≤ b && b ≤ 13)

/-- The digit that a byte is for `strtol`, or `36`. -/
def digitOf (b : UInt8) : Nat :=
  if 48 ≤ b ∧ b ≤ 57 then b.toNat - 48
  else if 65 ≤ b ∧ b ≤ 90 then b.toNat - 55
  else if 97 ≤ b ∧ b ≤ 122 then b.toNat - 87
  else 36

/-- The sign in front of a number, and what stands behind it. -/
def signOf : Bytes → Int × Bytes
  | 45 :: m => (-1, m)
  | 43 :: m => (1, m)
  | m => (1, m)

/-- `strtol(m, NULL, base)` for the bases `10` and `16`. -/
def strtol (m : Bytes) (base : Nat) : Int :=
  let (sign, m) := signOf (m.dropWhile isSpace)
  let m := if base = 16 ∧ (m.take 2 = ascii "0x" ∨ m.take 2 = ascii "0X") then m.drop 2 else m
  let n := (m.takeWhile fun b => digitOf b < base).foldl (fun n b => base * n + digitOf b) 0
  max (-2 ^ 63) (min (2 ^ 63 - 1) (sign * n))

def atoi (m : Bytes) : Int := intOfLong (strtol m 10)

/-- A text that begins with a digit stands for the number of its first digits. -/
theorem atoi_cons {d : UInt8} (hd : 48 ≤ d ∧ d ≤ 57) (w : Bytes) :
    atoi (d :: w) = intOfLong (max (-2 ^ 63) (min (2 ^ 63 - 1)
      (((d :: w).takeWhile fun b => digitOf b < 10).foldl (fun n b => 10 * n + digitOf b) 0 :
        Nat))) := by
  rw [UInt8.le_iff_toNat_le, UInt8.le_iff_toNat_le] at hd
  have hspace : isSpace d = false := by
    simp only [isSpace, Bool.or_eq_false_iff, decide_eq_false_iff_not, Bool.and_eq_false_iff,
      UInt8.le_iff_toNat_le, ← UInt8.toNat_inj]
    have h9 : (9 : UInt8).toNat = 9 := rfl
    have h13 : (13 : UInt8).toNat = 13 := rfl
    have h32 : (32 : UInt8).toNat = 32 := rfl
    have h48 : (48 : UInt8).toNat = 48 := rfl
    omega
  have hsign : signOf (d :: w) = (1, d :: w) := by
    rw [signOf.eq_3]
    · rintro m h
      obtain ⟨rfl, -⟩ := List.cons.inj h
      exact absurd hd.1 (by decide)
    · rintro m h
      obtain ⟨rfl, -⟩ := List.cons.inj h
      exact absurd hd.1 (by decide)
  simp only [atoi, strtol, List.dropWhile_cons, hspace, Bool.false_eq_true, if_false, hsign,
    show ¬ (10 = 16 : Prop) by decide, false_and, one_mul]

/-- A call of a callback that stores something, with the texts it is given.  `received` says that
    the name of a header ends inside of what the parser was given. -/
inductive ResponseCall where
  | version (text : Bytes)
  | status (text : Bytes)
  | reason (text : Bytes)
  | httpField (field value : Bytes) (received : Bool)
  deriving DecidableEq

/-- `httpclient_parser` (`httprespond_parser.h:5-28`), and the response and error of the
    `HttpResponseParser` it belongs to.  Its `status` and `close` are never read.  `calls` is not
    in the source: it keeps the calls of the callbacks. -/
structure ResponseParser where
  cs : Nat
  bodyStart : Nat
  contentLen : Int
  chunked : Bool
  chunksDone : Bool
  nread : Nat
  mark : Nat
  fieldStart : Nat
  fieldLen : Nat
  data : HttpResponse
  error : Nat
  calls : List ResponseCall
  deriving DecidableEq

namespace ResponseParser

/-- `httpclient_parser_init` (`httprespond_parser.rl:128-146`). -/
def init (s : ResponseParser) : ResponseParser :=
  { s with
    cs := httpclientParserScanner.start
    bodyStart := 0
    contentLen := -1
    chunked := false
    chunksDone := false
    mark := 0
    nread := 0
    fieldLen := 0
    fieldStart := 0 }

/-- `HttpResponseParser()` (`http_parser.cpp:222-234`). -/
def new : ResponseParser where
  cs := httpclientParserScanner.start
  bodyStart := 0
  contentLen := -1
  chunked := false
  chunksDone := false
  nread := 0
  mark := 0
  fieldStart := 0
  fieldLen := 0
  data := {}
  error := 0
  calls := []

def record (s : ResponseParser) (call : ResponseCall) : ResponseParser :=
  { s with calls := s.calls ++ [call] }

/-- The text of `length` bytes at a position. -/
def textAt (mem : Bytes) (at' length : Nat) : Bytes := (mem.drop at').take length

/-- `on_response_reason` (`http_parser.cpp:174-177`). -/
def onResponseReason (s : ResponseParser) (mem : Bytes) (at' length : Nat) :
    Except Fault ResponseParser := do
  let v ← stringAt mem at' length
  return { s with data := { s.data with reason := v } }

/-- `on_response_status` (`http_parser.cpp:179-183`): the number is read up to where it ends,
    whatever the length. -/
def onResponseStatus (s : ResponseParser) (mem : Bytes) (at' : Nat) : ResponseParser :=
  { s with data := { s.data with status := atoi (mem.drop at') } }

/-- `on_response_version` (`http_parser.cpp:188-204`). -/
def onResponseVersion (s : ResponseParser) (mem : Bytes) (at' length : Nat) : ResponseParser :=
  if strncmpEq mem at' (ascii "HTTP/1.1") length then
    { s with data := { s.data with version := 0x11 } }
  else if strncmpEq mem at' (ascii "HTTP/1.0") length then
    { s with data := { s.data with version := 0x10 } }
  else { s with error := 1001 }

/-- `on_response_http_field` (`http_parser.cpp:212-220`). -/
def onResponseHttpField (s : ResponseParser) (mem : Bytes) (field flen value vlen : Nat) :
    Except Fault ResponseParser :=
  if flen = 0 then .ok s
  else do
    let key ← stringAt mem field flen
    let val ← stringAt mem value vlen
    return { s with data := { s.data with headers := s.data.headers.set key val } }

/-- One action at position `p` of the `len` bytes that are parsed
    (`httprespond_parser.rl:20-82`).  The other callbacks do nothing. -/
def act (mem : Bytes) (len p : Nat) (s : ResponseParser) :
    ResponseAction → Except Fault ResponseParser
  | .mark | .startValue => .ok { s with mark := p }
  | .startField => .ok { s with fieldStart := p }
  | .writeField => .ok { s with fieldLen := subSize p s.fieldStart }
  | .writeContentLen => .ok { s with contentLen := intOfLong (strtol (mem.drop s.mark) 10) }
  | .writeConnectionClose => .ok s
  | .writeValue =>
    (s.record (.httpField (textAt mem s.fieldStart s.fieldLen)
      (textAt mem s.mark (subSize p s.mark)) (s.fieldStart + s.fieldLen ≤ len))).onResponseHttpField
        mem s.fieldStart s.fieldLen s.mark (subSize p s.mark)
  | .reasonPhrase =>
    (s.record (.reason (textAt mem s.mark (subSize p s.mark)))).onResponseReason mem s.mark
      (subSize p s.mark)
  | .statusCode =>
    .ok ((s.record (.status (textAt mem s.mark (subSize p s.mark)))).onResponseStatus mem s.mark)
  | .httpVersion =>
    .ok ((s.record (.version (textAt mem s.mark (subSize p s.mark)))).onResponseVersion mem s.mark
      (subSize p s.mark))
  | .chunkSize =>
    let contentLen := intOfLong (strtol (mem.drop s.mark) 16)
    .ok { s with chunked := true, contentLen := contentLen, chunksDone := contentLen ≤ 0 }
  | .transChunked => .ok { s with chunked := true }
  | .done => .ok { s with bodyStart := p + 1 }

def acts (mem : Bytes) (len : Nat) (s : ResponseParser) (events : List (Nat × ResponseAction)) :
    Except Fault ResponseParser :=
  events.foldlM (fun s e => s.act mem len e.1 e.2) s

/-- The positions are cleared (`httprespond_parser.rl:151-154`). -/
def clear (s : ResponseParser) : ResponseParser :=
  { s with nread := 0, mark := 0, fieldLen := 0, fieldStart := 0 }

/-- `httpclient_parser_execute` (`httprespond_parser.rl:149-189`) with offset `0`.  Behind the
    bytes that are parsed there must be a null byte; a position that fails its check makes the
    answer `-1`. -/
def httpclientParserExecute (s : ResponseParser) (mem : Bytes) (len : Nat) :
    Except Fault (ResponseParser × Int) :=
  if mem[len]? ≠ some 0 ∨ intOfSize len ≠ len then .error .assertion
  else do
    let r : Scanned ResponseAction :=
      if s.cs = 0 then ⟨0, 0, []⟩ else httpclientParserScanner.scan s.cs 0 (mem.take len)
    let t ← s.clear.acts mem len r.events
    let t := { t with cs := r.state, nread := addSize t.nread r.stop }
    if t.nread ≤ len ∧ t.bodyStart ≤ len then
      if t.mark < len ∧ t.fieldLen ≤ len ∧ t.fieldStart < len then .ok (t, intOfSize t.nread)
      else .ok (t, -1)
    else .error .assertion

/-- `HttpResponseParser::execute` (`http_parser.cpp:236-244`): the bytes behind the offset
    returned move to the front of the buffer, from in front of it for the offset `-1`. -/
def execute (s : ResponseParser) (mem : Bytes) (len : Nat) (chunk : Bool) :
    Except Fault (ResponseParser × Bytes × Nat) := do
  let s := if chunk then s.init else s
  let (s, offset) ← s.httpclientParserExecute mem len
  let offset := sizeOfInt offset
  if len < offset then .error .outOfBounds
  else return (s, (mem.take len).drop offset ++ mem.drop (len - offset), offset)

/-- `isFinished` (`http_parser.cpp:246-248`) is `1`, or `-1` for an error; of the final states
    only the first counts (`httprespond_parser.rl:210-212`). -/
def isFinished (s : ResponseParser) : Bool :=
  s.cs = 0 ∨ s.cs = httpclientParserScanner.firstFinal

/-- `hasError` (`http_parser.cpp:250-252`). -/
def hasError (s : ResponseParser) : Bool := s.error ≠ 0 ∨ s.cs = 0

/-- `getContentLength` (`http_parser.cpp:254-256`). -/
def getContentLength (s : ResponseParser) (lexicalCast : Bytes → Option UInt64) : UInt64 :=
  s.data.headers.getAs lexicalCast (ascii "content-length") 0

end ResponseParser

end CppServerFramework.HTTP

import CppServerFramework.HTTP.Http
import CppServerFramework.HTTP.RequestTable
import CppServerFramework.Misc.CInt

/-!
# The request parser

`HttpRequestParser` (`http_parser.cpp`) and `http_parser_execute` (`httprequest_parser.rl`).  The
buffer is given with all its memory, of which the first `len` bytes are parsed: the actions use
positions they have stored, in earlier calls too, and may reach beyond.  The warnings that are
logged are not modelled.
-/

namespace CppServerFramework.HTTP
open CInt

/-- `http_parser` (`httprequest_parser.h:5-29`), and the request and error of the
    `HttpRequestParser` it belongs to.  Its `content_len` is never read. -/
structure RequestParser where
  cs : Nat
  bodyStart : Nat
  nread : Nat
  mark : Nat
  fieldStart : Nat
  fieldLen : Nat
  queryStart : Nat
  xmlSent : Bool
  jsonSent : Bool
  uriRelaxed : Bool
  data : HttpRequest
  error : Nat
  deriving DecidableEq

namespace RequestParser

/-- `HttpRequestParser()` (`http_parser.cpp:126-139`): `http_parser_init` leaves `query_start`
    and `uri_relaxed` as the memory has them. -/
def new (queryStart : Nat) (uriRelaxed : Bool) : RequestParser where
  cs := (httpParserScanner uriRelaxed).start
  bodyStart := 0
  nread := 0
  mark := 0
  fieldStart := 0
  fieldLen := 0
  queryStart := queryStart
  xmlSent := false
  jsonSent := false
  uriRelaxed := uriRelaxed
  data := {}
  error := 0

/-- `on_request_method` (`http_parser.cpp:64-74`). -/
def onRequestMethod (s : RequestParser) (m : Bytes) : RequestParser :=
  if charsToHttpMethod m = .invalidMethod then { s with error := 1000 }
  else { s with data := { s.data with method := charsToHttpMethod m } }

/-- `on_request_version` (`http_parser.cpp:95-110`). -/
def onRequestVersion (s : RequestParser) (mem : Bytes) (at' length : Nat) : RequestParser :=
  if strncmpEq mem at' (ascii "HTTP/1.1") length then
    { s with data := { s.data with version := 0x11 } }
  else if strncmpEq mem at' (ascii "HTTP/1.0") length then
    { s with data := { s.data with version := 0x10 } }
  else { s with error := 1001 }

/-- `on_request_http_field` (`http_parser.cpp:116-124`). -/
def onRequestHttpField (s : RequestParser) (mem : Bytes) (field flen value vlen : Nat) :
    Except Fault RequestParser :=
  if flen = 0 then .ok s
  else do
    let key ← stringAt mem field flen
    let val ← stringAt mem value vlen
    return { s with data := { s.data with headers := s.data.headers.set key val } }

/-- One action at position `p` (`httprequest_parser.rl:16-87`). -/
def act (mem : Bytes) (p : Nat) (s : RequestParser) : RequestAction → Except Fault RequestParser
  | .mark | .startValue => .ok { s with mark := p }
  | .startField => .ok { s with fieldStart := p }
  | .writeField => .ok { s with fieldLen := subSize p s.fieldStart }
  | .writeValue => s.onRequestHttpField mem s.fieldStart s.fieldLen s.mark (subSize p s.mark)
  | .requestMethod => .ok (s.onRequestMethod (mem.drop s.mark))
  | .requestUri => .ok s
  | .fragment => do
    let v ← stringAt mem s.mark (subSize p s.mark)
    return { s with data := { s.data with fragment := v } }
  | .startQuery => .ok { s with queryStart := p }
  | .queryString => do
    let v ← stringAt mem s.queryStart (subSize p s.queryStart)
    return { s with data := { s.data with query := v } }
  | .httpVersion => .ok (s.onRequestVersion mem s.mark (subSize p s.mark))
  | .requestPath => do
    let v ← stringAt mem s.mark (subSize p s.mark)
    return { s with data := { s.data with path := v } }
  | .done => .ok { s with bodyStart := if s.xmlSent || s.jsonSent then s.mark else p + 1 }
  | .xml => .ok { s with xmlSent := true }
  | .json => .ok { s with jsonSent := true }

def acts (mem : Bytes) (s : RequestParser) (events : List (Nat × RequestAction)) :
    Except Fault RequestParser :=
  events.foldlM (fun s e => s.act mem e.1 e.2) s

/-- The assertions behind the scan (`httprequest_parser.rl:270-274`). -/
def Consistent (s : RequestParser) (len : Nat) : Prop :=
  s.nread ≤ len ∧ s.bodyStart ≤ len ∧ s.mark < len ∧ s.fieldLen ≤ len ∧ s.fieldStart < len

instance (s : RequestParser) (len : Nat) : Decidable (s.Consistent len) :=
  inferInstanceAs (Decidable (_ ∧ _))

/-- `http_parser_execute` (`httprequest_parser.rl:246-276`) with offset `0`: it returns
    `nread`, which counts the bytes of all calls so far.  The length has to fit in an `int`
    (`httprequest_parser.rl:258`). -/
def httpParserExecute (s : RequestParser) (mem : Bytes) (len : Nat) :
    Except Fault (RequestParser × Nat) :=
  if len = 0 then .ok (s, 0)
  else if intOfSize len ≠ len then .error .assertion
  else do
    let r : Scanned RequestAction :=
      if s.cs = 0 then ⟨0, 0, []⟩ else (httpParserScanner s.uriRelaxed).scan s.cs 0 (mem.take len)
    let t ← s.acts mem r.events
    let t := { t with cs := if t.cs = 0 then 0 else r.state, nread := addSize t.nread r.stop }
    if t.Consistent len then .ok (t, t.nread) else .error .assertion

/-- `HttpRequestParser::execute` (`http_parser.cpp:144-150`): the bytes behind the offset
    returned move to the front of the buffer. -/
def execute (s : RequestParser) (mem : Bytes) (len : Nat) :
    Except Fault (RequestParser × Bytes × Nat) := do
  let (s, offset) ← s.httpParserExecute mem len
  return (s, (mem.take len).drop offset ++ mem.drop (len - offset), offset)

/-- `isFinished` (`http_parser.cpp:152-154`) is `1`, or `-1` for an error, which the caller
    has tested before. -/
def isFinished (s : RequestParser) : Bool :=
  s.cs = 0 ∨ (httpParserScanner s.uriRelaxed).firstFinal ≤ s.cs

/-- `hasError` (`http_parser.cpp:156-158`). -/
def hasError (s : RequestParser) : Bool := s.error ≠ 0 ∨ s.cs = 0

/-- `getContentLength` (`http_parser.cpp:160-162`). -/
def getContentLength (s : RequestParser) (lexicalCast : Bytes → Option UInt64) : UInt64 :=
  s.data.headers.getAs lexicalCast (ascii "content-length") 0

end RequestParser

end CppServerFramework.HTTP

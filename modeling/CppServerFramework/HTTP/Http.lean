import Mathlib.Algebra.Ring.Nat
import Mathlib.Data.List.Sort
import Mathlib.Tactic.Common

/-!
# Requests and responses

The parts of `http.h` that the parsers fill in.  Strings are lists of bytes.
-/

namespace CppServerFramework.HTTP

abbrev Bytes := List UInt8

def ascii (s : String) : Bytes := s.toList.map fun c => UInt8.ofNat c.toNat

/-- `HttpMethod` (`http.h:57-62`). -/
inductive HttpMethod where
  | delete
  | get
  | head
  | post
  | put
  | connect
  | options
  | trace
  | copy
  | lock
  | mkcol
  | move
  | propfind
  | proppatch
  | search
  | unlock
  | bind
  | rebind
  | unbind
  | acl
  | report
  | mkactivity
  | checkout
  | merge
  | msearch
  | notify
  | subscribe
  | unsubscribe
  | patch
  | purge
  | mkcalendar
  | link
  | unlink
  | source
  | invalidMethod
  deriving DecidableEq, Repr

/-- `HTTP_METHOD_MAP` (`http.h:13-55`). -/
def httpMethodMap : List (HttpMethod × String) :=
  [(.delete, "DELETE"), (.get, "GET"), (.head, "HEAD"), (.post, "POST"), (.put, "PUT"),
    (.connect, "CONNECT"), (.options, "OPTIONS"), (.trace, "TRACE"), (.copy, "COPY"),
    (.lock, "LOCK"), (.mkcol, "MKCOL"), (.move, "MOVE"), (.propfind, "PROPFIND"),
    (.proppatch, "PROPPATCH"), (.search, "SEARCH"), (.unlock, "UNLOCK"), (.bind, "BIND"),
    (.rebind, "REBIND"), (.unbind, "UNBIND"), (.acl, "ACL"), (.report, "REPORT"),
    (.mkactivity, "MKACTIVITY"), (.checkout, "CHECKOUT"), (.merge, "MERGE"),
    (.msearch, "M-SEARCH"), (.notify, "NOTIFY"), (.subscribe, "SUBSCRIBE"),
    (.unsubscribe, "UNSUBSCRIBE"), (.patch, "PATCH"), (.purge, "PURGE"),
    (.mkcalendar, "MKCALENDAR"), (.link, "LINK"), (.unlink, "UNLINK"), (.source, "SOURCE")]

/-- `HttpMethodToString` (`http.cpp:41-47`). -/
def httpMethodToString (m : HttpMethod) : String :=
  match httpMethodMap.find? fun x => x.1 = m with
  | some x => x.2
  | none => "<unknown>"

/-- `HTTP_STATUS_MAP` (`http.h:64-126`). -/
def httpStatusMap : List (Int × String) :=
  [(100, "Continue"), (101, "Switching Protocols"), (102, "Processing"), (200, "OK"),
    (201, "Created"), (202, "Accepted"), (203, "Non-Authoritative Information"),
    (204, "No Content"), (205, "Reset Content"), (206, "Partial Content"), (207, "Multi-Status"),
    (208, "Already Reported"), (226, "IM Used"), (300, "Multiple Choices"),
    (301, "Moved Permanently"), (302, "Found"), (303, "See Other"), (304, "Not Modified"),
    (305, "Use Proxy"), (307, "Temporary Redirect"), (308, "Permanent Redirect"),
    (400, "Bad Request"), (401, "Unauthorized"), (402, "Payment Required"), (403, "Forbidden"),
    (404, "Not Found"), (405, "Method Not Allowed"), (406, "Not Acceptable"),
    (407, "Proxy Authentication Required"), (408, "Request Timeout"), (409, "Conflict"),
    (410, "Gone"), (411, "Length Required"), (412, "Precondition Failed"),
    (413, "Payload Too Large"), (414, "URI Too Long"), (415, "Unsupported Media Type"),
    (416, "Range Not Satisfiable"), (417, "Expectation Failed"), (421, "Misdirected Request"),
    (422, "Unprocessable Entity"), (423, "Locked"), (424, "Failed Dependency"),
    (426, "Upgrade Required"), (428, "Precondition Required"), (429, "Too Many Requests"),
    (431, "Request Header Fields Too Large"), (451, "Unavailable For Legal Reasons"),
    (500, "Internal Server Error"), (501, "Not Implemented"), (502, "Bad Gateway"),
    (503, "Service Unavailable"), (504, "Gateway Timeout"), (505, "HTTP Version Not Supported"),
    (506, "Variant Also Negotiates"), (507, "Insufficient Storage"), (508, "Loop Detected"),
    (510, "Not Extended"), (511, "Network Authentication Required")]

/-- `HttpStatusToString` (`http.cpp:49-59`); a status is the `int` under its enumeration. -/
def httpStatusToString (s : Int) : String :=
  match httpStatusMap.find? fun x => x.1 = s with
  | some x => x.2
  | none => "<unknown>"

/-- `CharsToHttpMethod` (`http.cpp:22-33`): the first method whose name the text begins with. -/
def charsToHttpMethod (m : Bytes) : HttpMethod :=
  match httpMethodMap.find? fun x => (ascii x.2).isPrefixOf m with
  | some x => x.1
  | none => .invalidMethod

def toLower (b : UInt8) : UInt8 := if 65 ≤ b ∧ b ≤ 90 then b + 32 else b

/-- What `CompareNoCase` (`http.cpp:61-63`) looks at of a key: it reads it up to a null byte. -/
def lowerKey (a : Bytes) : Bytes := (a.takeWhile (· ≠ 0)).map toLower

/-- The order of `CompareNoCase`. -/
def compareNoCase (a b : Bytes) : Bool :=
  (lowerKey a).map UInt8.toNat < (lowerKey b).map UInt8.toNat

/-- Two keys are equal for `CompareNoCase`. -/
def sameKey (a b : Bytes) : Bool :=
  (a.takeWhile (· ≠ 0)).map toLower = (b.takeWhile (· ≠ 0)).map toLower

/-- A `std::map` with `CompareNoCase`, as the list of its entries in the order in which their
    keys came. -/
abbrev HeaderMap := List (Bytes × Bytes)

/-- `m[key] = val`: an entry keeps the key it was made with. -/
def HeaderMap.set (m : HeaderMap) (key val : Bytes) : HeaderMap :=
  if m.any fun e => sameKey e.1 key then
    m.map fun e => if sameKey e.1 key then (e.1, val) else e
  else m ++ [(key, val)]

def HeaderMap.get (m : HeaderMap) (key : Bytes) : Option Bytes :=
  (m.find? fun e => sameKey e.1 key).map Prod.snd

/-- `m.erase(key)` -/
def HeaderMap.erase (m : HeaderMap) (key : Bytes) : HeaderMap := m.filter fun e => !sameKey e.1 key

/-- The entries in the order of their keys, in which a loop over the map finds them. -/
def HeaderMap.entries (m : HeaderMap) : List (Bytes × Bytes) :=
  m.insertionSort fun a b => !compareNoCase b.1 a.1

/-- `getAs<uint64_t>` (`http.h:159-171`); `boost::lexical_cast` throws where it is `none`. -/
def HeaderMap.getAs (m : HeaderMap) (lexicalCast : Bytes → Option UInt64) (key : Bytes)
    (dflt : UInt64) : UInt64 :=
  match m.get key with
  | none => dflt
  | some v => (lexicalCast v).getD dflt

/-- The number that a text of decimal digits stands for. -/
def decimalValue (v : Bytes) : Nat := v.foldl (fun n b => 10 * n + (b.toNat - 48)) 0

/-- A `boost::lexical_cast<uint64_t>` that reads decimal numbers and nothing else. -/
def decimalCast (v : Bytes) : Option UInt64 :=
  if v ≠ [] ∧ (v.all fun b => 48 ≤ b && b ≤ 57) ∧ decimalValue v < 2 ^ 64 then
    some (UInt64.ofNat (decimalValue v))
  else none

/-- `HttpRequest` (`http.h:248-260`, `http.cpp:67-72`). -/
structure HttpRequest where
  method : HttpMethod := .get
  version : UInt8 := 0x11
  close : Bool := true
  path : Bytes := ascii "/"
  query : Bytes := []
  fragment : Bytes := []
  body : Bytes := []
  headers : HeaderMap := []
  deriving DecidableEq

namespace HttpRequest

def setHeader (r : HttpRequest) (key val : Bytes) : HttpRequest :=
  { r with headers := r.headers.set key val }

def delHeader (r : HttpRequest) (key : Bytes) : HttpRequest :=
  { r with headers := r.headers.erase key }

def setBody (r : HttpRequest) (body : Bytes) : HttpRequest := { r with body := body }

def setClose (r : HttpRequest) (close : Bool) : HttpRequest := { r with close := close }

end HttpRequest

/-- `HttpResponse` (`http.h:263-305`, `http.cpp:187-191`). -/
structure HttpResponse where
  status : Int := 200
  version : UInt8 := 0x11
  close : Bool := true
  body : Bytes := []
  reason : Bytes := []
  headers : HeaderMap := []
  deriving DecidableEq

namespace HttpResponse

def setHeader (r : HttpResponse) (key val : Bytes) : HttpResponse :=
  { r with headers := r.headers.set key val }

def delHeader (r : HttpResponse) (key : Bytes) : HttpResponse :=
  { r with headers := r.headers.erase key }

def setBody (r : HttpResponse) (body : Bytes) : HttpResponse := { r with body := body }

def setClose (r : HttpResponse) (close : Bool) : HttpResponse := { r with close := close }

end HttpResponse

/-- What stops a program: a failed assertion, a `std::length_error`, or a read outside of a
    buffer. -/
inductive Fault where
  | assertion
  | lengthError
  | outOfBounds
  deriving DecidableEq, Repr

/-- How a receive function ends without a message: with a fault, by closing the connection and
    answering a null pointer, in a read that does not return, or out of fuel. -/
inductive Stop where
  | fault (f : Fault)
  | null
  | blocked
  | fuel
  deriving DecidableEq, Repr

/-- `std::string(mem + at, len)` in a buffer `mem`. -/
def stringAt (mem : Bytes) (at' len : Nat) : Except Fault Bytes :=
  if 2 ^ 63 ≤ len then .error .lengthError
  else if mem.length < at' + len then .error .outOfBounds
  else .ok ((mem.drop at').take len)

/-- `strncmp(mem + at, lit, n) == 0` for a text `lit` without null bytes. -/
def strncmpEq (mem : Bytes) (at' : Nat) (lit : Bytes) (n : Nat) : Bool :=
  (mem.drop at').take (min n (lit.length + 1)) = (lit ++ [0]).take n

end CppServerFramework.HTTP

import CppServerFramework.HTTP.Dump
import CppServerFramework.HTTP.ResponseParser
import CppServerFramework.HTTP.UriTable

/-!
# URIs

`Uri` (`uri.h`, `uri.rl`).  The actions of the parser share one pointer `mark` into the text.
-/

namespace CppServerFramework.HTTP
open CInt UriAction

/-- `Uri` (`uri.h:11-46`, `uri.rl:151-153`). -/
structure Uri where
  scheme : Bytes := []
  userinfo : Bytes := []
  host : Bytes := []
  path : Bytes := []
  query : Bytes := []
  fragment : Bytes := []
  port : Int := 0
  deriving DecidableEq

/-- What ends `CreateUri` without an answer: a null `mark` that is given to `std::string`, which
    throws, or to `atoi`, or a `mark` behind the present byte. -/
inductive UriError where
  | nullMark
  | lengthError
  deriving DecidableEq, Repr

/-- What the actions run on; `mark` is a position, or null. -/
structure UriParsing where
  mark : Option Nat
  uri : Uri
  deriving DecidableEq

namespace UriParsing

/-- `std::string(mark, fpc - mark)` at position `p`. -/
def marked (text : Bytes) (p : Nat) (x : UriParsing) : Except UriError Bytes :=
  match x.mark with
  | none => .error .nullMark
  | some m => if p < m then .error .lengthError else .ok ((text.drop m).take (p - m))

/-- One action at position `p` (`uri.rl:16-116`). -/
def act (text : Bytes) (p : Nat) (x : UriParsing) : UriAction → Except UriError UriParsing
  | .markU | .markH => .ok { x with mark := some p }
  | .saveScheme => do
    let v ← x.marked text p
    return ⟨none, { x.uri with scheme := v }⟩
  | .savePort =>
    if x.mark = some p then .ok { x with mark := none }
    else match x.mark with
      | none => .error .nullMark
      | some m => .ok ⟨none, { x.uri with port := atoi (text.drop m) }⟩
  | .saveUserinfo =>
    if x.mark = none then .ok x
    else do
      let v ← x.marked text p
      return ⟨none, { x.uri with userinfo := v }⟩
  | .saveHost =>
    if x.mark = none then .ok x
    else do
      let v ← x.marked text p
      return { x with uri := { x.uri with host := v } }
  | .savePath => do
    let v ← x.marked text p
    return ⟨none, { x.uri with path := v }⟩
  | .saveQuery => do
    let v ← x.marked text p
    return ⟨none, { x.uri with query := v }⟩
  | .saveFragment => do
    let v ← x.marked text p
    return ⟨none, { x.uri with fragment := v }⟩

def acts (text : Bytes) (x : UriParsing) (events : List (Nat × UriAction)) :
    Except UriError UriParsing :=
  events.foldlM (fun x e => x.act text e.1 e.2) x

end UriParsing

namespace Uri

/-- `Uri::CreateUri` (`uri.rl:134-149`); the actions for the end of the text are taken where the
    scanner has not failed. -/
def createUri (uristr : Bytes) : Except UriError (Option Uri) := do
  let r := uriParserScanner.scan uriParserScanner.start 0 uristr
  let x ← UriParsing.acts uristr ⟨none, {}⟩ r.events
  if r.state = 0 then return none
  else
    let x ← x.acts uristr ((uriParserEof r.state).map fun a => (uristr.length, a))
    if uriParserScanner.firstFinal ≤ r.state then return some x.uri
    else return none

/-- `isDefaultPort` (`uri.rl:155-165`). -/
def isDefaultPort (u : Uri) : Bool :=
  if u.port = 0 then true
  else if u.scheme = ascii "http" then u.port = 80
  else if u.scheme = ascii "https" then u.port = 443
  else false

/-- `getPath` (`uri.rl:167-170`). -/
def getPath (u : Uri) : Bytes := if u.path.isEmpty then ascii "/" else u.path

/-- `getPort` (`uri.rl:172-182`). -/
def getPort (u : Uri) : Int :=
  if u.port ≠ 0 then u.port
  else if u.scheme = ascii "http" then 80
  else if u.scheme = ascii "https" then 443
  else u.port

/-- `std::to_string` of an `int32_t`. -/
def portString (port : Int) : Bytes :=
  (if port < 0 then ascii "-" else []) ++ decimal port.natAbs

/-- `dump` and `toString` (`uri.rl:184-202`). -/
def toString (u : Uri) : Bytes :=
  u.scheme ++ ascii "://" ++ u.userinfo ++ (if u.userinfo.isEmpty then [] else ascii "@") ++
    u.host ++ (if u.isDefaultPort then [] else ascii ":" ++ portString u.port) ++ u.getPath ++
    (if u.query.isEmpty then [] else ascii "?") ++ u.query ++
    (if u.fragment.isEmpty then [] else ascii "#") ++ u.fragment

end Uri

end CppServerFramework.HTTP

import CppServerFramework.HTTP.RequestParser
import CppServerFramework.Stream.SocketStream

/-!
# A session of the server

`HttpSession::recvRequest` (`http_session.cpp:10-69`).
-/

namespace CppServerFramework.HTTP
open CInt Blocks

/-- What `recvRequest` starts from besides the connection: its buffer, of
    `http.request.buffer_size` bytes, and the members of the parser that are not initialised, as
    the memory has them, and the `boost::lexical_cast` of a header. -/
structure HttpSession where
  memory : Bytes
  queryStart : Nat
  uriRelaxed : Bool
  lexicalCast : Bytes → Option UInt64

namespace HttpSession

/-- The head (`http_session.cpp:20-40`): the parser, the buffer, the number of bytes left in it,
    and the connection. -/
def recvHead : (fuel : Nat) → RequestParser → (data : Bytes) → (offset : Int) → PeerSocket →
    Except Stop (RequestParser × Bytes × Int × PeerSocket)
  | 0, _, _, _, _ => .error .fuel
  | fuel + 1, parser, data, offset, sock =>
    match sock.read (subSize data.length (sizeOfInt offset)) with
    | none => .error .blocked
    | some (bs, sock) =>
      if (bs.length : Int) ≤ 0 then .error .null
      else
        let len : Int := bs.length + offset
        match parser.execute (overwrite data offset.toNat bs) (sizeOfInt len) with
        | .error f => .error (.fault f)
        | .ok (parser, data, nparse) =>
          if parser.hasError then .error .null
          else
            let offset := intOfSize (subSize (sizeOfInt len) nparse)
            if sizeOfInt offset = data.length then .error .null
            else if parser.isFinished then .ok (parser, data, offset, sock)
            else recvHead fuel parser data offset sock

/-- The body (`http_session.cpp:42-67`): the request, and the connection. -/
def recvBody (c : HttpSession) (fuel : Nat) (parser : RequestParser) (data : Bytes)
    (offset : Int) (sock : PeerSocket) : Except Stop (HttpRequest × PeerSocket) :=
  let length := int64OfUint64 (parser.getContentLength c.lexicalCast)
  if 0 < length then
    let len := if offset ≤ length then offset else length
    let body := overwrite (List.replicate length.toNat 0) 0 (data.take len.toNat)
    let length := length - offset
    if 0 < length then
      match fixSizeLoop bufferRead length.toNat fuel len.toNat length.toNat ⟨sock, body, false⟩ with
      | none => .error .fuel
      | some (_, rt, s) =>
        if s.blocked then .error .blocked
        else if rt ≤ 0 then .error .null
        else .ok ({ parser.data with body := s.buf }, s.sock)
    else .ok ({ parser.data with body := body }, sock)
  else .ok (parser.data, sock)

/-- `HttpSession::recvRequest` (`http_session.cpp:10-69`), with the connection it leaves.  The
    buffer is local, so what stands in it behind the request is gone. -/
def receive (c : HttpSession) (fuel : Nat) (sock : PeerSocket) :
    Except Stop (HttpRequest × PeerSocket) :=
  match recvHead fuel (.new c.queryStart c.uriRelaxed) c.memory 0 sock with
  | .error stop => .error stop
  | .ok (parser, data, offset, sock) => c.recvBody fuel parser data offset sock

/-- The answer of `HttpSession::recvRequest`. -/
def recvRequest (c : HttpSession) (fuel : Nat) (sock : PeerSocket) : Except Stop HttpRequest :=
  (c.receive fuel sock).map Prod.fst

end HttpSession

end CppServerFramework.HTTP

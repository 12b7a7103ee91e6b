import CppServerFramework.HTTP.ResponseParser
import CppServerFramework.Stream.SocketStream

/-!
# Receiving a response

`HttpConnection::recvResponse` (`http_connection.cpp:120-233`).
-/

namespace CppServerFramework.HTTP
open CInt Blocks

/-- What `recvResponse` starts from besides the connection: its buffer, of
    `http.response.buffer_size` bytes and one more, as the memory has it, and the
    `boost::lexical_cast` of a header. -/
structure ResponseBuffer where
  buffSize : Nat
  memory : Bytes
  lexicalCast : Bytes → Option UInt64
  size : memory.length = buffSize + 1

namespace ResponseBuffer

/-- The loop that reads and parses until the parser has finished: the parser, the buffer, the
    number of bytes left in it, and the connection.  It gives up when the buffer is full of bytes
    that are left. -/
def recvParsed (buffSize : Nat) (chunk : Bool) (full : Int → Bool) : (fuel : Nat) →
    ResponseParser → (data : Bytes) → (offset : Int) → PeerSocket →
    Except Stop (ResponseParser × Bytes × Int × PeerSocket)
  | 0, _, _, _, _ => .error .fuel
  | fuel + 1, parser, data, offset, sock =>
    match sock.read (subSize buffSize (sizeOfInt offset)) with
    | none => .error .blocked
    | some (bs, sock) =>
      if (bs.length : Int) ≤ 0 then .error .null
      else
        let len : Int := bs.length + offset
        let data := overwrite (overwrite data offset.toNat bs) len.toNat [0]
        match parser.execute data (sizeOfInt len) chunk with
        | .error f => .error (.fault f)
        | .ok (parser, data, nparse) =>
          if parser.hasError then .error .null
          else
            let offset := intOfSize (subSize (sizeOfInt len) nparse)
            if full offset then .error .null
            else if parser.isFinished then .ok (parser, data, offset, sock)
            else recvParsed buffSize chunk full fuel parser data offset sock

/-- The head (`http_connection.cpp:130-151`). -/
def recvHead (c : ResponseBuffer) (fuel : Nat) (parser : ResponseParser) (data : Bytes)
    (offset : Int) (sock : PeerSocket) :
    Except Stop (ResponseParser × Bytes × Int × PeerSocket) :=
  recvParsed c.buffSize false (fun offset => sizeOfInt offset = c.buffSize) fuel parser data offset
    sock

/-- The line in front of a chunk (`http_connection.cpp:160-178`). -/
def recvChunkHead (c : ResponseBuffer) (fuel : Nat) (parser : ResponseParser) (data : Bytes)
    (len : Int) (sock : PeerSocket) :
    Except Stop (ResponseParser × Bytes × Int × PeerSocket) :=
  recvParsed c.buffSize true (fun len => len = intOfSize c.buffSize) fuel parser data len sock

/-- `body.append(data, n)` -/
def append (body data : Bytes) (n : Int) : Except Stop Bytes :=
  if n < 0 then .error (.fault .lengthError) else .ok (body ++ data.take n.toNat)

/-- The part of a chunk that is not in the buffer (`http_connection.cpp:189-197`). -/
def recvLeft (c : ResponseBuffer) : (fuel : Nat) → (left : Int) → (body data : Bytes) →
    PeerSocket → Except Stop (Bytes × Bytes × PeerSocket)
  | 0, _, _, _, _ => .error .fuel
  | fuel + 1, left, body, data, sock =>
    if left ≤ 0 then .ok (body, data, sock)
    else
      let n := if intOfSize c.buffSize < left then intOfSize c.buffSize else left
      match sock.read (sizeOfInt n) with
      | none => .error .blocked
      | some (bs, sock) =>
        if (bs.length : Int) ≤ 0 then .error .null
        else
          let data := overwrite data 0 bs
          recvLeft c fuel (left - bs.length) (body ++ data.take bs.length) data sock

/-- One chunk behind its line: for the line end that follows it, two bytes are taken off the end
    of what is in the buffer (`http_connection.cpp:180-199`). -/
def recvChunk (c : ResponseBuffer) (fuel : Nat) (contentLen : Int) (body data : Bytes) (len : Int)
    (sock : PeerSocket) : Except Stop (Bytes × Bytes × Int × PeerSocket) := do
  let len := len - 2
  if contentLen ≤ len then
    let body ← append body data contentLen
    let data := (data.take len.toNat).drop contentLen.toNat ++
      data.drop (len.toNat - contentLen.toNat)
    return (body, data, len - contentLen, sock)
  else
    let body ← append body data len
    let (body, data, sock) ← recvLeft c fuel (contentLen - len) body data sock
    return (body, data, 0, sock)

/-- All chunks (`http_connection.cpp:155-202`). -/
def recvChunks (c : ResponseBuffer) : (fuel : Nat) → ResponseParser → (body data : Bytes) →
    (len : Int) → PeerSocket → Except Stop ResponseParser
  | 0, _, _, _, _, _ => .error .fuel
  | fuel + 1, parser, body, data, len, sock => do
    let (parser, data, len, sock) ← c.recvChunkHead fuel parser data len sock
    let (body, data, len, sock) ← c.recvChunk fuel parser.contentLen body data len sock
    if parser.chunksDone then return { parser with data := parser.data.setBody body }
    else recvChunks c fuel parser body data len sock

/-- The body of the length that the head announces (`http_connection.cpp:203-230`). -/
def recvBody (c : ResponseBuffer) (fuel : Nat) (parser : ResponseParser) (data : Bytes)
    (offset : Int) (sock : PeerSocket) : Except Stop ResponseParser :=
  let length := int64OfUint64 (parser.getContentLength c.lexicalCast)
  if 0 < length then
    let len := if offset ≤ length then offset else length
    let body := overwrite (List.replicate length.toNat 0) 0 (data.take len.toNat)
    let length := length - offset
    if 0 < length then
      match fixSizeLoop bufferRead length.toNat fuel len.toNat length.toNat ⟨sock, body, false⟩ with
      | none => .error .fuel
      | some (_, rt, s) =>
        if s.blocked then .error .blocked
        else if rt ≤ 0 then .error .null
        else .ok { parser with data := parser.data.setBody s.buf }
    else .ok { parser with data := parser.data.setBody body }
  else .ok parser

/-- The parser whose response `recvResponse` returns. -/
def receive (c : ResponseBuffer) (fuel : Nat) (sock : PeerSocket) : Except Stop ResponseParser := do
  let (parser, data, offset, sock) ← c.recvHead fuel .new c.memory 0 sock
  if parser.chunked then c.recvChunks fuel parser [] data offset sock
  else c.recvBody fuel parser data offset sock

/-- `HttpConnection::recvResponse` (`http_connection.cpp:120-233`). -/
def recvResponse (c : ResponseBuffer) (fuel : Nat) (sock : PeerSocket) :
    Except Stop HttpResponse :=
  (c.receive fuel sock).map ResponseParser.data

end ResponseBuffer

end CppServerFramework.HTTP

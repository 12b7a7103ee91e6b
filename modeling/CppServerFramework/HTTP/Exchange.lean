import CppServerFramework.HTTP.RequestRoundTrip
import CppServerFramework.HTTP.ResponseRoundTrip
import CppServerFramework.HTTP.Server
import CppServerFramework.HTTP.Uri
import CppServerFramework.Servlet.Servlet

/-!
# A request and its response

The client is `HttpConnection::DoRequest` (`http_connection.cpp:74-113`), and the server is
`HttpServer::handleClient` (`http_server.cpp:16-43`) with a `ServletDispatch`.  What one of them
writes comes to the other in pieces of any size.
-/

namespace CppServerFramework.HTTP
open CInt Blocks

/-! ## The server -/

/-- What a servlet makes of a response; it does not write to the session itself. -/
abbrev Handler := HttpRequest → HttpResponse → HttpResponse

/-- The page of the `DefaultServlet` (`servlet.cpp:113-119`). -/
def notFoundPage : Bytes :=
  ascii ("<html>" ++ "<head><title>404 Not Found</title></head>" ++ "<body>" ++
    "<center><h1>404 Not Found</h1></center>" ++ "<hr><center>MyServer/1.0.0</center>" ++
    "</body>" ++ "</html>")

/-- `DefaultServlet::handle` (`servlet.cpp:109-126`). -/
def DefaultServlet.handle : Handler := fun _ response =>
  (({ response with status := 404 }.setHeader (ascii "Server") (ascii "MyServer/1.0.0")).setHeader
    (ascii "Content-Type") (ascii "text/html")).setBody notFoundPage

/-- `slt->handle(request, response, session)` -/
def Servlet.handle : Servlet Handler Handler → Handler
  | .object s => s
  | .function cb => cb
  | .default => DefaultServlet.handle

/-- `ServletDispatch::handle` (`servlet.cpp:23-31`). -/
def ServletDispatch.handle (d : ServletDispatch Handler Handler) (fnmatch : Bytes → Bytes → Bool) :
    Handler := fun request response => (d.getServlet fnmatch request.path).handle request response

/-! ## The client -/

/-- `HttpResult::Error` (`http_connection.h:14-24`). -/
inductive HttpResult.Error where
  | ok
  | invalidUrl
  | invalidHost
  | connectFailed
  | sendClose
  | sendError
  | recvTimeout
  | poolConnectFailed
  | poolInvalidConnection
  deriving DecidableEq, Repr

structure HttpResult where
  result : HttpResult.Error
  response : Option HttpResponse
  error : Bytes
  deriving DecidableEq

/-- What the calls of a client meet: the address of a host, as `toString` writes it, whether there
    is a socket and whether it connects, the answer of `writeFixSize` and the text of `errno` behind
    it, and what comes back. -/
structure Network where
  address : Bytes → Int → Option Bytes
  socket : Bool
  connects : Bool
  sent : Bytes → Int
  errno : Bytes
  answer : PeerSocket

/-- `HttpConnection::DoRequest(req, uri, timeout_ms)` (`http_connection.cpp:74-113`). -/
def HttpConnection.doRequestTo (c : ResponseBuffer) (fuel : Nat) (net : Network) (req : HttpRequest)
    (uri : Uri) (timeout : UInt64) : Except Stop HttpResult :=
  match net.address uri.host uri.getPort with
  | none => .ok ⟨.invalidHost, none, ascii "invalid host: " ++ uri.host⟩
  | some addr =>
    if !net.socket then .ok ⟨.connectFailed, none, ascii "connect fail: " ++ addr⟩
    else if !net.connects then .ok ⟨.connectFailed, none, ascii "connect fail: " ++ addr⟩
    else
      let rt := net.sent req.dump
      if rt = 0 then .ok ⟨.sendClose, none, ascii "send request closed by peer: " ++ addr⟩
      else if rt < 0 then
        .ok ⟨.sendError, none, ascii "send request socket error errno=" ++ net.errno⟩
      else
        match c.recvResponse fuel net.answer with
        | .error .null => .ok ⟨.recvTimeout, none, ascii "recv response timeout: " ++ addr ++
            ascii " timeout_ms:" ++ decimal timeout.toNat⟩
        | .error stop => .error stop
        | .ok rsp => .ok ⟨.ok, some rsp, ascii "ok"⟩

/-! ## From one to the other -/

/-- What the server makes of a request: its flag is never asked of the header that is written for
    it. -/
def HttpRequest.received (r : HttpRequest) : HttpRequest :=
  { r with close := true, headers := RequestParser.lines r }

/-- A request that can be written, for whose head the server has a buffer. -/
structure HttpSession.Takes (session : HttpSession) (req : HttpRequest) : Prop where
  writable : req.Writable session.uriRelaxed
  fits : req.head.length ≤ session.memory.length
  memory : session.memory.length < 2 ^ 63
  size : req.body.length < 2 ^ 63
  cast : ∀ n, n < 2 ^ 64 → session.lexicalCast (decimal n) = some (UInt64.ofNat n)

/-- A response that can be written, for whose head the client has a buffer. -/
structure ResponseBuffer.Takes (c : ResponseBuffer) (rsp : HttpResponse) : Prop where
  writable : rsp.Writable
  short : rsp.head.length < c.buffSize
  buffer : c.buffSize < 2 ^ 62
  size : rsp.body.length < 2 ^ 63
  cast : ∀ n, n < 2 ^ 64 → c.lexicalCast (decimal n) = some (UInt64.ofNat n)

/-- The request comes to the server as `up`, with its whole head in the first read, and the
    response to the client as `down`, with nothing of its head cut. -/
structure Carried (session : HttpSession) (c : ResponseBuffer) (req : HttpRequest)
    (rsp : HttpResponse) (up down : PeerSocket) : Prop where
  upProper : up.Proper
  upBytes : up.bytes = req.dump
  headFirst : session.HeadFirst up req.head req.body
  downProper : down.Proper
  downBytes : down.bytes = rsp.dump
  wellCut : c.WellCut down rsp.head rsp.body

/-- The server of the URI is reached, takes the whole request, and `down` comes back. -/
structure Network.Reaches (net : Network) (uri : Uri) (req : HttpRequest) (down : PeerSocket) :
    Prop where
  address : ∃ addr, net.address uri.host uri.getPort = some addr
  socket : net.socket = true
  connects : net.connects = true
  sent : 0 < net.sent req.dump
  answer : net.answer = down

namespace HttpSession

variable {session : HttpSession} {req r : HttpRequest} {head body : Bytes} {sock : PeerSocket}

theorem Takes.sent (h : session.Takes req) :
    session.SentRequest req.head req.body req.received := by
  have hfits := h.fits
  have hmemory := h.memory
  have hsize := h.size
  obtain ⟨haccepts, s, hs, herror, hdata⟩ :=
    RequestParser.head_parsed h.writable session.queryStart (by omega)
  refine ⟨haccepts, hfits, hmemory, hsize, s, hs, herror, ?_, ?_⟩
  · exact RequestParser.getContentLength_lines h.writable (by omega) h.cast (by rw [hdata])
  · have hset : HeaderMap.setAll [] (RequestParser.lines req) = RequestParser.lines req :=
      ResponseParser.setAll_eq (m := []) (RequestParser.pairwise_lines h.writable)
    rw [hdata, hset]
    rfl

/-- A request whose head comes in the first read is received. -/
theorem SentRequest.receive_headFirst (hr : session.SentRequest head body r) (hs : sock.Proper)
    (hbytes : sock.bytes = head ++ body) (hfirst : session.HeadFirst sock head body) :
    ∃ fuel t, session.receive fuel sock = .ok (r, t) := by
  obtain ⟨hle, hrest⟩ := hfirst
  have hpos := Scanner.length_pos_of_accepts hr.accepted
  rw [firstRead] at hle hrest
  cases hread : sock.read session.memory.length with
  | none =>
    rw [hread] at hle
    exact absurd hle (Nat.not_le_of_lt hpos)
  | some x =>
    obtain ⟨bs, sock'⟩ := x
    rw [hread] at hle hrest
    have hsplit := hbytes.symm.trans (PeerSocket.read_bytes hread)
    obtain ⟨a, rfl⟩ := List.prefix_of_prefix_length_le (List.prefix_append head body)
      ⟨sock'.bytes, hsplit.symm⟩ hle
    rw [List.append_assoc, List.append_cancel_left_eq] at hsplit
    subst hsplit
    simp only [Option.map_some, Option.getD_some, List.length_append] at hrest
    have hlast : sock'.bytes = [] ∨ 0 < intOfSize sock'.bytes.length := by
      rw [← List.length_eq_zero_iff]
      have hleft : head.length + (a.length + sock'.bytes.length) - (head.length + a.length) =
        sock'.bytes.length := by omega
      rw [hleft] at hrest
      exact hrest.imp_left fun h0 => by omega
    exact ⟨_, _, receive_within hr (PeerSocket.proper_read hs hread) hread
      (List.append_nil _).symm hlast (Nat.lt_succ_self _)⟩

end HttpSession

section
variable {d : ServletDispatch Handler Handler} {fnmatch : Bytes → Bytes → Bool}
  {session : HttpSession} {c : ResponseBuffer} {req : HttpRequest} {rsp : HttpResponse}
  {up down : PeerSocket}

/-- The response of the servlet of the path, before anything of it is written. -/
def ServletDispatch.answer (d : ServletDispatch Handler Handler) (fnmatch : Bytes → Bytes → Bool)
    (req : HttpRequest) : HttpResponse :=
  d.handle fnmatch req { version := req.version, close := true }

/-- The server answers with the response of the servlet, and closes the connection. -/
theorem HttpServer.handleClient_answer (hreq : session.Takes req)
    (h : Carried session c req rsp up down) (isKeepAlive : Bool) :
    ∃ fuel, HttpServer.handleClient isKeepAlive (d.handle fnmatch) fuel [session] up =
      ([d.answer fnmatch req.received], .closed) := by
  obtain ⟨fuel, t, hreceive⟩ := hreq.sent.receive_headFirst h.upProper h.upBytes h.headFirst
  have hclose : req.received.isClose = true := rfl
  refine ⟨fuel, ?_⟩
  rw [HttpServer.handleClient, hreceive]
  simp only [hclose, Bool.true_or, Bool.or_true, if_true]
  rfl

/-- A request that is sent to a server is answered by the servlet of its path alone, and the answer
    is what the caller of `DoRequest` gets. -/
theorem exchange_ok (hreq : session.Takes req) (hrsp : rsp = d.answer fnmatch req.received)
    (htakes : c.Takes rsp) (h : Carried session c req rsp up down) (isKeepAlive : Bool)
    {net : Network} {uri : Uri} (hnet : net.Reaches uri req down) (timeout : UInt64) :
    (∃ fuel, HttpServer.handleClient isKeepAlive (d.handle fnmatch) fuel [session] up =
      ([rsp], .closed)) ∧
    ∃ fuel, HttpConnection.doRequestTo c fuel net req uri timeout =
      .ok ⟨.ok, some rsp.received, ascii "ok"⟩ := by
  refine ⟨hrsp ▸ HttpServer.handleClient_answer hreq h isKeepAlive, ?_⟩
  obtain ⟨t, hcomplete, hdata⟩ := ResponseBuffer.complete_of_writable htakes.writable htakes.short
    htakes.buffer htakes.size htakes.cast
  obtain ⟨fuel, hreceive⟩ := hcomplete.recvResponse h.downProper h.downBytes h.wellCut
  refine ⟨fuel, ?_⟩
  obtain ⟨addr, haddr⟩ := hnet.address
  have hsent := hnet.sent
  rw [hdata, ← hnet.answer] at hreceive
  simp only [HttpConnection.doRequestTo, haddr, hnet.socket, hnet.connects, Bool.not_true,
    Bool.false_eq_true, if_false, if_neg (Int.ne_of_gt hsent), if_neg (Int.not_lt.mpr hsent.le),
    hreceive]

end

/-- The headers that the default servlet sets. -/
def DefaultServlet.headers : HeaderMap :=
  [(ascii "Server", ascii "MyServer/1.0.0"), (ascii "Content-Type", ascii "text/html")]

/-- What the default servlet answers can be written. -/
theorem DefaultServlet.handle_writable (req : HttpRequest) {version : UInt8} (close : Bool)
    (h : version = 0x10 ∨ version = 0x11) :
    (DefaultServlet.handle req { version, close }).Writable where
  version := h
  status := (by decide : (-2 ^ 31 : Int) ≤ 404 ∧ (404 : Int) < 2 ^ 31)
  reason := Or.inl rfl
  keys := (by decide : DefaultServlet.headers.Pairwise fun a b => sameKey a.1 b.1 = false)
  headers := (by decide : ∀ e ∈ DefaultServlet.headers, sameKey e.1 (ascii "connection") = true ∨
    e.1 ∈ ResponseGrammar.fieldName.language ∧ e.2 ∈ ResponseGrammar.fieldValue.language ∧
      ResponseGrammar.Plain e.1)

/-- A request for a page that there is none of. -/
def exampleUnknown : HttpRequest := { path := ascii "/a", body := ascii "hi" }

def exampleUnknownSession : HttpSession := ⟨List.replicate 80 0, 0, false, decimalCast⟩

def exampleNotFound : HttpResponse := DefaultServlet.handle exampleUnknown {}

def exampleUnknownBuffer : ResponseBuffer := ⟨160, List.replicate 161 0, decimalCast, rfl⟩

theorem exampleUnknown_takes : exampleUnknownSession.Takes exampleUnknown where
  writable := {
    method := by decide
    notSearch := by decide
    version := Or.inr rfl
    path := ⟨by decide, Or.inr (by decide +kernel)⟩
    query := ⟨by decide, Or.inr (by decide +kernel)⟩
    fragment := ⟨by decide, Or.inr (by decide +kernel)⟩
    keys := by decide
    headers := by decide }
  fits := by decide
  memory := by decide
  size := by decide
  cast _ hn := decimalCast_decimal hn

theorem exampleNotFound_takes : exampleUnknownBuffer.Takes exampleNotFound where
  writable := DefaultServlet.handle_writable _ _ (Or.inr rfl)
  short := by decide +kernel
  buffer := by decide
  size := by decide +kernel
  cast _ hn := decimalCast_decimal hn

/-- A path without a servlet is answered with the page of the default servlet, which comes in two
    pieces. -/
theorem exchange_ok_notFound :
    (∃ fuel, HttpServer.handleClient true (ServletDispatch.handle {} fun _ _ => false) fuel
        [exampleUnknownSession] ⟨[exampleUnknown.head ++ ascii "h", ascii "i"], false⟩ =
      ([exampleNotFound], .closed)) ∧
    ∃ fuel, HttpConnection.doRequestTo exampleUnknownBuffer fuel
      { address := fun _ _ => some (ascii "127.0.0.1:80"), socket := true, connects := true,
        sent := fun data => data.length, errno := [],
        answer := ⟨[exampleNotFound.head, exampleNotFound.body], true⟩ }
      exampleUnknown {} 1000 = .ok ⟨.ok, some exampleNotFound.received, ascii "ok"⟩ := by
  refine exchange_ok exampleUnknown_takes rfl exampleNotFound_takes ?_ true
    ⟨⟨_, rfl⟩, rfl, rfl, by decide, rfl⟩ 1000
  refine ⟨by simp only [PeerSocket.Proper]; decide, by decide, ?_, ?_, by decide +kernel, ?_, ?_⟩
  · unfold HttpSession.HeadFirst
    decide
  · simp only [PeerSocket.Proper]
    decide +kernel
  · unfold ResponseParser.Uncut
    decide +kernel
  · decide +kernel

end CppServerFramework.HTTP

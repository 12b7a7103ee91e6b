import CppServerFramework.HTTP.Pipeline

/-!
# Serving a connection

`HttpServer::handleClient` (`http_server.cpp:16-43`).  Whether the connection is kept is asked of
`HttpRequest::m_close`, which the constructor sets and nothing in the parser or in `recvRequest`
changes, whatever the `Connection` header says.
-/

namespace CppServerFramework.HTTP

/-- `isClose` (`http.h:192`). -/
def HttpRequest.isClose (r : HttpRequest) : Bool := r.close

/-- The line that `HttpResponse::dump` writes in place of all entries of the name `connection`
    (`http.cpp:217-223`). -/
def HttpResponse.connectionLine (rsp : HttpResponse) : Bytes :=
  if rsp.close then ascii "connection: close\x0d\n" else ascii "connection: keep-alive\x0d\n"

/-- How the service of a connection ends: it is closed, or a call of `recvRequest` does not
    return. -/
inductive ServeEnd where
  | closed
  | stopped (stop : Stop)
  deriving DecidableEq, Repr

namespace HttpServer

/-- `HttpServer::handleClient` (`http_server.cpp:16-43`): the responses sent, and the end.  The
    list gives what each call of `recvRequest` starts from, and `handle` is what
    `m_dispatch->handle` makes of a response. -/
def handleClient (isKeepAlive : Bool) (handle : HttpRequest → HttpResponse → HttpResponse)
    (fuel : Nat) : List HttpSession → PeerSocket → List HttpResponse × ServeEnd
  | [], _ => ([], .stopped .fuel)
  | c :: cs, sock =>
    match c.receive fuel sock with
    | .error .null => ([], .closed)
    | .error stop => ([], .stopped stop)
    | .ok (req, sock) =>
      let rsp := handle req { version := req.version, close := req.isClose || !isKeepAlive }
      if !isKeepAlive || req.isClose then ([rsp], .closed)
      else
        let (rsps, last) := handleClient isKeepAlive handle fuel cs sock
        (rsp :: rsps, last)

end HttpServer

/-- The `Connection` header has the value `value`, letter case ignored. -/
def HttpRequest.HasConnection (r : HttpRequest) (value : String) : Prop :=
  ∃ v, r.headers.get (ascii "connection") = some v ∧ sameKey v (ascii value) = true

/-- The connection follows the requests `rs` that come on it: `isClose` says what their headers
    say, and requests to keep the connection and then one to close it are all answered with the
    header they ask for before it is closed. -/
structure FollowsRequests (handle : HttpRequest → HttpResponse → HttpResponse) (fuel : Nat)
    (cs : List HttpSession) (sock : PeerSocket) (rs : List HttpRequest) : Prop where
  keepAlive : ∀ r ∈ rs, r.HasConnection "keep-alive" → r.isClose = false
  close : ∀ r ∈ rs, r.HasConnection "close" → r.isClose = true
  served : ∀ ks r, rs = ks ++ [r] → (∀ k ∈ ks, k.HasConnection "keep-alive") →
    r.HasConnection "close" →
    ∃ rsps, HttpServer.handleClient true handle fuel cs sock = (rsps, .closed) ∧
      rsps.map HttpResponse.connectionLine =
        ks.map (fun _ => ascii "connection: keep-alive\x0d\n") ++ [ascii "connection: close\x0d\n"]

variable {c : HttpSession} {parser p : RequestParser} {data data' : Bytes} {offset offset' : Int}
variable {sock sock' t : PeerSocket} {r : HttpRequest} {rs : List HttpRequest} {fuel : Nat}

namespace HttpSession

theorem recvHead_close
    (h : recvHead fuel parser data offset sock = .ok (p, data', offset', sock')) :
    p.data.close = parser.data.close := by
  induction fuel generalizing parser data offset sock with
  | zero => cases h
  | succ fuel ih =>
    rw [recvHead] at h
    split at h
    · cases h
    · split at h
      · cases h
      · dsimp only at h
        split at h
        · cases h
        · rename_i q data₁ n hexec
          have hclose := RequestParser.execute_close hexec
          split at h
          · cases h
          · split at h
            · cases h
            · split at h
              · cases h
                exact hclose
              · exact (ih h).trans hclose

/-- Every request that is received is one to close the connection. -/
theorem isClose_of_receive (h : c.receive fuel sock = .ok (r, t)) : r.isClose = true := by
  rw [receive] at h
  split at h
  · cases h
  · rename_i parser data offset sock' hhead
    rw [HttpRequest.isClose, recvBody_data h]
    exact recvHead_close hhead

theorem isClose_of_receiveAll {cs : List HttpSession}
    (h : receiveAll fuel cs sock = .ok (rs, t)) : ∀ r ∈ rs, r.isClose = true := by
  induction cs generalizing rs sock with
  | nil =>
    cases h
    simp
  | cons c cs ih =>
    cases rs with
    | nil => simp
    | cons r rs =>
      obtain ⟨u, hreceive, hall⟩ := receiveAll_cons.mp h
      intro r' hr'
      rcases List.mem_cons.mp hr' with rfl | hr'
      · exact isClose_of_receive hreceive
      · exact ih hall r' hr'

end HttpSession

variable {handle : HttpRequest → HttpResponse → HttpResponse} {cs : List HttpSession}

/-- The first request that is received is the last that is answered. -/
theorem HttpServer.handleClient_first (h : c.receive fuel sock = .ok (r, t)) :
    handleClient true handle fuel (c :: cs) sock =
      ([handle r { version := r.version, close := true }], .closed) := by
  have hclose := HttpSession.isClose_of_receive h
  rw [handleClient, h]
  simp [hclose]

/-- A connection follows its requests exactly when none of them asks to keep it. -/
theorem followsRequests_iff (hhandle : ∀ r rsp, (handle r rsp).close = rsp.close)
    (h : HttpSession.receiveAll fuel cs sock = .ok (rs, t)) :
    FollowsRequests handle fuel cs sock rs ↔ ∀ r ∈ rs, ¬r.HasConnection "keep-alive" := by
  have hclose := HttpSession.isClose_of_receiveAll h
  constructor
  · intro hfollows r hr hkeep
    have hopen := hfollows.keepAlive r hr hkeep
    rw [hclose r hr] at hopen
    cases hopen
  · intro hnone
    refine ⟨fun r hr hkeep => absurd hkeep (hnone r hr), fun r hr _ => hclose r hr, ?_⟩
    rintro ks r rfl hkeep -
    have hks : ks = [] := by
      cases ks with
      | nil => rfl
      | cons k ks => exact absurd (hkeep k (by simp)) (hnone k (by simp))
    subst hks
    cases cs with
    | nil => cases h
    | cons c cs =>
      obtain ⟨u, hreceive, -⟩ := HttpSession.receiveAll_cons.mp h
      refine ⟨_, HttpServer.handleClient_first hreceive, ?_⟩
      rw [List.map_singleton, HttpResponse.connectionLine, hhandle]
      rfl

def exampleKeep : Bytes := ascii "GET / HTTP/1.1\x0d\nConnection: Keep-Alive\x0d\n\x0d\n"

def exampleClose : Bytes := ascii "GET / HTTP/1.1\x0d\nconnection: close\x0d\n\x0d\n"

def exampleHandle (_ : HttpRequest) (rsp : HttpResponse) : HttpResponse :=
  { rsp with status := 404 }

def exampleSilent : Bytes := ascii "GET /a HTTP/1.1\x0d\nHost: b\x0d\n\x0d\n"

/-- A request without a `Connection` header, and one to close the connection. -/
theorem followsRequests_close :
    FollowsRequests exampleHandle 1 [HttpSession.exampleSession, HttpSession.exampleSession]
      ⟨[exampleSilent, exampleClose], false⟩
      [{ path := ascii "/a", headers := [(ascii "Host", ascii "b")] },
        { headers := [(ascii "connection", ascii "close")] }] := by
  have hhandle : ∀ r rsp, (exampleHandle r rsp).close = rsp.close := fun _ _ => rfl
  apply (followsRequests_iff (t := ⟨[], false⟩) hhandle (by decide +kernel)).mpr
  have hnone : HeaderMap.get [(ascii "Host", ascii "b")] (ascii "connection") = none := by decide
  have hget : HeaderMap.get [(ascii "connection", ascii "close")] (ascii "connection") =
      some (ascii "close") := by decide
  intro r hr
  rw [List.mem_cons, List.mem_singleton] at hr
  rintro ⟨v, hv, hsame⟩
  rcases hr with rfl | rfl
  · cases hnone.symm.trans hv
  · cases hget.symm.trans hv
    revert hsame
    decide

/-- The first of two requests asks to keep the connection: it is answered with a header that
    closes it, and the second is not answered. -/
theorem keepAlive_closed :
    HttpSession.receiveAll 1 [HttpSession.exampleSession, HttpSession.exampleSession]
        ⟨[exampleKeep, exampleClose], false⟩ =
        .ok ([{ headers := [(ascii "Connection", ascii "Keep-Alive")] },
          { headers := [(ascii "connection", ascii "close")] }], ⟨[], false⟩) ∧
      HttpServer.handleClient true exampleHandle 1
        [HttpSession.exampleSession, HttpSession.exampleSession]
        ⟨[exampleKeep, exampleClose], false⟩ =
        ([{ status := 404, close := true }], .closed) ∧
      ¬FollowsRequests exampleHandle 1 [HttpSession.exampleSession, HttpSession.exampleSession]
        ⟨[exampleKeep, exampleClose], false⟩
        [{ headers := [(ascii "Connection", ascii "Keep-Alive")] },
          { headers := [(ascii "connection", ascii "close")] }] := by
  refine ⟨by decide +kernel, by decide +kernel, fun h => ?_⟩
  have hopen := h.keepAlive _ (List.mem_cons_self ..)
    ⟨ascii "Keep-Alive", by decide, by decide⟩
  cases hopen

end CppServerFramework.HTTP

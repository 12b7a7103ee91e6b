import Mathlib.Data.List.Induction
import CppServerFramework.HTTP.Uri
import CppServerFramework.Misc.OrderedSet

/-!
# Requests from headers of the caller

The requests that `HttpConnection::DoRequest` and `HttpConnectionPool::DoRequest`
(`HTTP/http_connection.cpp:46-72`, `283-313`) build of a `std::map` of headers, in which names that
differ in case are different.  They are taken over in the order of the map.
-/

namespace CppServerFramework.HTTP

/-- The order of the keys of a `std::map<std::string, std::string>`. -/
def stringLess (a b : Bytes × Bytes) : Bool := a.1.map UInt8.toNat < b.1.map UInt8.toNat

/-- The headers of the caller. -/
structure CallerHeaders where
  entries : List (Bytes × Bytes)
  ordered : OrderedSet.Sorted stringLess entries

def isConnection (e : Bytes × Bytes) : Bool := sameKey e.1 (ascii "connection")

def isHost (e : Bytes × Bytes) : Bool := sameKey e.1 (ascii "host")

def isKeepAlive (e : Bytes × Bytes) : Bool := sameKey e.2 (ascii "keep-alive")

/-- One turn of the loop over the headers, on the request and `has_host`. -/
def addHeader (x : HttpRequest × Bool) (e : Bytes × Bytes) : HttpRequest × Bool :=
  if isConnection e then (if isKeepAlive e then x.1.setClose false else x.1, x.2)
  else
    let hasHost := if !x.2 && isHost e then !e.2.isEmpty else x.2
    (x.1.setHeader e.1 e.2, hasHost)

/-- `HttpConnection::DoRequest` (`http_connection.cpp:46-72`), up to the request. -/
def HttpConnection.doRequest (method : HttpMethod) (uri : Uri) (headers : CallerHeaders)
    (body : Bytes) : HttpRequest :=
  let req : HttpRequest :=
    { path := uri.getPath, query := uri.query, fragment := uri.fragment, method }
  let (req, hasHost) := headers.entries.foldl addHeader (req, false)
  let req := if hasHost then req else req.setHeader (ascii "Host") uri.host
  req.setBody body

/-- The names of an `HttpConnectionPool` for its server. -/
structure PoolHost where
  host : Bytes
  vhost : Bytes
  deriving DecidableEq, Repr

/-- `HttpConnectionPool::DoRequest` (`http_connection.cpp:283-313`), up to the request. -/
def PoolHost.doRequest (pool : PoolHost) (method : HttpMethod) (url : Bytes)
    (headers : CallerHeaders) (body : Bytes) : HttpRequest :=
  let req : HttpRequest := { path := url, method, close := false }
  let (req, hasHost) := headers.entries.foldl addHeader (req, false)
  let req :=
    if hasHost then req
    else if pool.vhost.isEmpty then req.setHeader (ascii "Host") pool.host
    else req.setHeader (ascii "Host") pool.vhost
  req.setBody body

/-- The request has a host that is not empty, no header for the connection, and the flag that the
    caller has asked for. -/
structure NamesHost (headers : CallerHeaders) (req : HttpRequest) : Prop where
  host : ∃ v, req.headers.get (ascii "host") = some v ∧ v ≠ []
  noConnection : req.headers.get (ascii "connection") = none
  keepAlive : (∃ e ∈ headers.entries, isConnection e = true ∧ isKeepAlive e = true) →
    req.close = false
  close : ∀ e, headers.entries.filter isConnection = [e] →
    sameKey e.2 (ascii "close") = true → req.close = true

namespace CallerHeaders

variable (headers : CallerHeaders)

/-- The last host of the caller is not empty, unless they all are. -/
def LastHost : Prop :=
  ∀ e, (headers.entries.filter isHost).getLast? = some e → e.2 = [] →
    ∀ e' ∈ headers.entries, isHost e' = true → e'.2 = []

/-- The caller asks for the connection to be closed, and nothing else about it. -/
def AsksClose : Prop :=
  ∃ e, headers.entries.filter isConnection = [e] ∧ sameKey e.2 (ascii "close") = true

end CallerHeaders

/-! ## The loop -/

variable {x : HttpRequest × Bool} {es : List (Bytes × Bytes)} {e : Bytes × Bytes}
  {headers : CallerHeaders} {req : HttpRequest}

theorem isConnection_of_isHost (h : isHost e = true) : isConnection e = false := by
  rw [isHost, sameKey_iff] at h
  rw [isConnection, Bool.eq_false_iff, Ne, sameKey_iff, h]
  decide

/-- What the loop leaves of a request: the last host is there, `has_host` tells whether one was not
    empty, and no header for the connection has come in. -/
theorem foldl_addHeader (es : List (Bytes × Bytes)) (x : HttpRequest × Bool) :
    (es.foldl addHeader x).1.headers.get (ascii "host") =
        ((es.filter isHost).getLast?.map Prod.snd).or (x.1.headers.get (ascii "host")) ∧
      (es.foldl addHeader x).2 = (x.2 || es.any fun e => isHost e && !e.2.isEmpty) ∧
      (es.foldl addHeader x).1.headers.get (ascii "connection") =
        x.1.headers.get (ascii "connection") ∧
      (es.foldl addHeader x).1.close =
        (x.1.close && !es.any fun e => isConnection e && isKeepAlive e) := by
  induction es using List.reverseRecOn with
  | nil => simp
  | append_singleton es e ih =>
    obtain ⟨hhost, hhas, hconn, hclose⟩ := ih
    rw [List.foldl_concat, addHeader]
    by_cases hc : isConnection e = true
    · have hh : isHost e = false := by
        rw [Bool.eq_false_iff]
        intro hh
        rw [isConnection_of_isHost hh] at hc
        cases hc
      rw [if_pos hc]
      cases hk : isKeepAlive e
      · simp [hc, hh, hk, hhost, hhas, hconn, hclose]
      · simp [hc, hh, hk, hhost, hhas, hconn, HttpRequest.setClose]
    · have hnot : sameKey e.1 (ascii "connection") = false := by
        simpa [isConnection] using hc
      rw [if_neg hc]
      simp only [HttpRequest.setHeader, HeaderMap.get_set, hnot, Bool.false_eq_true, if_false]
      refine ⟨?_, ?_, hconn, ?_⟩
      · cases hh : isHost e
        · have hh' : sameKey e.1 (ascii "host") = false := hh
          simp [hh, hh', hhost]
        · have hh' : sameKey e.1 (ascii "host") = true := hh
          simp [hh, hh']
      · rw [hhas]
        cases x.2 <;> cases hany : (es.any fun e => isHost e && !e.2.isEmpty) <;>
          cases hh : isHost e <;> simp [hany, hh]
      · simpa [hc] using hclose

/-- The request behind the loop, with the host that it gets where the loop has found none. -/
def named (x : HttpRequest × Bool) (host : Bytes) : HttpRequest :=
  if x.2 then x.1 else x.1.setHeader (ascii "Host") host

/-- The host of a request is empty only where the caller has ended with an empty one. -/
theorem named_host {host : Bytes} (hhost : host ≠ []) (hreq : req.headers = []) :
    (∃ v, (named (es.foldl addHeader (req, false)) host).headers.get (ascii "host") = some v ∧
        v ≠ []) ↔
      ∀ e, (es.filter isHost).getLast? = some e → e.2 = [] →
        ∀ e' ∈ es, isHost e' = true → e'.2 = [] := by
  obtain ⟨hget, hhas, -⟩ := foldl_addHeader es (req, false)
  generalize es.foldl addHeader (req, false) = x at *
  simp only [hreq, Bool.false_or] at hget hhas
  have hempty : HeaderMap.get [] (ascii "host") = none := rfl
  rw [hempty, Option.or_none] at hget
  cases hx : x.2 with
  | false =>
    rw [hx, eq_comm, List.any_eq_false] at hhas
    have hall : ∀ e' ∈ es, isHost e' = true → e'.2 = [] := by
      intro e' he' hh
      simpa [hh] using hhas e' he'
    refine iff_of_true ⟨host, ?_, hhost⟩ fun e _ _ => hall
    rw [named, hx]
    exact (HeaderMap.get_set _ _ _ _).trans (if_pos (by decide))
  | true =>
    rw [hx, eq_comm, List.any_eq_true] at hhas
    obtain ⟨e', he', hne⟩ := hhas
    rw [Bool.and_eq_true, Bool.not_eq_true', List.isEmpty_eq_false_iff] at hne
    have hnamed : named x host = x.1 := by rw [named, if_pos hx]
    rw [hnamed, hget]
    obtain ⟨e, he⟩ : ∃ e, (es.filter isHost).getLast? = some e := by
      have hmem : e' ∈ es.filter isHost := List.mem_filter.mpr ⟨he', hne.1⟩
      exact ⟨_, List.getLast?_eq_some_getLast (List.ne_nil_of_mem hmem)⟩
    simp only [he, Option.map_some, Option.some.injEq, exists_eq_left', forall_eq']
    exact ⟨fun h hnil => absurd hnil h, fun h hnil => hne.2 (h hnil e' he' hne.1)⟩

theorem named_rest (x : HttpRequest × Bool) (host : Bytes) {k : Bytes}
    (hk : sameKey (ascii "Host") k = false) :
    (named x host).headers.get k = x.1.headers.get k ∧ (named x host).close = x.1.close := by
  rw [named]
  split
  · exact ⟨rfl, rfl⟩
  · refine ⟨?_, rfl⟩
    exact (HeaderMap.get_set _ _ _ _).trans (by rw [hk]; rfl)

/-- Both functions name the host in the same way, and differ in the flag that they begin with. -/
theorem namesHost_iff {host body : Bytes} (hhost : host ≠ []) (hreq : req.headers = []) :
    NamesHost headers ((named (headers.entries.foldl addHeader (req, false)) host).setBody body) ↔
      headers.LastHost ∧ (headers.AsksClose → req.close = true) := by
  obtain ⟨-, -, hconn, hclose⟩ := foldl_addHeader headers.entries (req, false)
  obtain ⟨hrest, hflag⟩ := named_rest (headers.entries.foldl addHeader (req, false)) host
    (k := ascii "connection") (by decide)
  have hset : ∀ r : HttpRequest, (r.setBody body).headers = r.headers ∧
    (r.setBody body).close = r.close := fun _ => ⟨rfl, rfl⟩
  have hnone : HeaderMap.get [] (ascii "connection") = none := rfl
  rw [hconn, hreq, hnone] at hrest
  rw [hclose] at hflag
  have hkept : ∀ e, headers.entries.filter isConnection = [e] →
      sameKey e.2 (ascii "close") = true →
      (headers.entries.any fun e => isConnection e && isKeepAlive e) = false := by
    intro e he hc
    rw [List.any_eq_false]
    intro e' he' hboth
    rw [Bool.and_eq_true] at hboth
    have hmem : e' ∈ headers.entries.filter isConnection := List.mem_filter.mpr ⟨he', hboth.1⟩
    rw [he] at hmem
    obtain rfl := List.mem_singleton.mp hmem
    have hk := hboth.2
    rw [isKeepAlive, sameKey_iff] at hk
    rw [sameKey_iff, hk] at hc
    exact absurd hc (by decide)
  constructor
  · rintro ⟨hh, -, -, hc⟩
    refine ⟨(named_host hhost hreq).mp hh, ?_⟩
    rintro ⟨e, he, hec⟩
    have := hc e he hec
    rw [(hset _).2, hflag, hkept e he hec] at this
    simpa using this
  · rintro ⟨hlast, hc⟩
    refine ⟨(named_host hhost hreq).mpr hlast, hrest, ?_, ?_⟩
    · rintro ⟨e, he, hconn, hk⟩
      have hany : (headers.entries.any fun e => isConnection e && isKeepAlive e) = true :=
        List.any_eq_true.mpr ⟨e, he, by simp [hconn, hk]⟩
      rw [(hset _).2, hflag, hany]
      simp
    · intro e he hec
      rw [(hset _).2, hflag, hkept e he hec]
      simpa using hc ⟨e, he, hec⟩

/-- A request of a connection is right exactly if the last host of the caller is not empty, or all
    of them are; one of a pool if, besides, the caller does not ask for the connection to be
    closed. -/
theorem doRequest_namesHost_iff (method : HttpMethod) (uri : Uri) (pool : PoolHost)
    (headers : CallerHeaders) (url body : Bytes) (huri : uri.host ≠ []) (hpool : pool.host ≠ []) :
    (NamesHost headers (HttpConnection.doRequest method uri headers body) ↔ headers.LastHost) ∧
      (NamesHost headers (pool.doRequest method url headers body) ↔
        headers.LastHost ∧ ¬headers.AsksClose) := by
  have hpoolHost : (if pool.vhost.isEmpty then pool.host else pool.vhost) ≠ [] := by
    split
    · exact hpool
    · rename_i h
      simpa using h
  have hpoolRequest : pool.doRequest method url headers body =
      (named (headers.entries.foldl addHeader ({ path := url, method, close := false }, false))
        (if pool.vhost.isEmpty then pool.host else pool.vhost)).setBody body := by
    rw [PoolHost.doRequest, named]
    cases pool.vhost.isEmpty <;> rfl
  constructor
  · refine (namesHost_iff huri rfl).trans ?_
    simp
  · rw [hpoolRequest, namesHost_iff hpoolHost rfl]
    simp

/-- The headers `HOST: h` and `host: ` of the caller. -/
def twoHosts : CallerHeaders :=
  ⟨[(ascii "HOST", ascii "h"), (ascii "host", [])], by simp [OrderedSet.Sorted]; decide⟩

def closing : CallerHeaders :=
  ⟨[(ascii "connection", ascii "close")], List.pairwise_singleton _ _⟩

theorem doRequest_namesHost_closing :
    NamesHost closing (HttpConnection.doRequest .get { host := ascii "h" } closing []) ∧
      ¬NamesHost closing ((PoolHost.mk (ascii "h") []).doRequest .get (ascii "/") closing []) := by
  obtain ⟨hconnection, hpool⟩ := doRequest_namesHost_iff .get { host := ascii "h" }
    ⟨ascii "h", []⟩ closing (ascii "/") [] (by decide) (by decide)
  refine ⟨hconnection.mpr ?_, fun h => (hpool.mp h).2 ?_⟩
  · rintro e he
    cases he
  · exact ⟨_, rfl, by decide⟩

/-- The empty host is set behind the other one. -/
theorem doRequest_emptyHost :
    (HttpConnection.doRequest .get { host := ascii "u" } twoHosts []).headers.get (ascii "host") =
        some [] ∧
      ¬NamesHost twoHosts (HttpConnection.doRequest .get { host := ascii "u" } twoHosts []) := by
  have hempty : (HttpConnection.doRequest .get { host := ascii "u" } twoHosts []).headers.get
      (ascii "host") = some [] := by decide
  refine ⟨hempty, fun h => ?_⟩
  obtain ⟨v, hv, hne⟩ := h.host
  rw [hempty] at hv
  cases hv
  exact hne rfl

end CppServerFramework.HTTP

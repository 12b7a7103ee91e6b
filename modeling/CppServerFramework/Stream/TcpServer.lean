import Mathlib.Data.List.Basic

/-!
# Binding a server

`TcpServer::bind` (`stream/tcpserver.cpp:34-58`).  `α` are the addresses and `σ` the sockets.  The
caller passes the vector of the failed addresses, and it is this vector that decides whether a
call has succeeded, and the sockets of earlier calls go with those of one that has failed.
-/

universe u v

namespace CppServerFramework.Stream

/-- An address of a call, the socket that is made for it, and what `bind` and `listen` of the
    socket answer. -/
structure Attempt (α : Type u) (σ : Type v) where
  addr : α
  sock : σ
  bound : Bool
  listened : Bool
  deriving DecidableEq, Repr

/-- The sockets of a `TcpServer`. -/
structure TcpServer (σ : Type v) where
  socks : List σ := []
  deriving DecidableEq, Repr

variable {α : Type u} {σ : Type v}

/-- The socket has been bound and listens. -/
def Attempt.succeeds (t : Attempt α σ) : Bool := t.bound && t.listened

namespace TcpServer

/-- The loop over the addresses (`tcpserver.cpp:36-48`), on `m_socks` and `failedAddrs`. -/
def bindAll : List (Attempt α σ) → List σ → List α → List σ × List α
  | [], socks, failedAddrs => (socks, failedAddrs)
  | t :: rest, socks, failedAddrs =>
    if !t.bound then bindAll rest socks (failedAddrs ++ [t.addr])
    else if !t.listened then bindAll rest socks (failedAddrs ++ [t.addr])
    else bindAll rest (socks ++ [t.sock]) failedAddrs

/-- `TcpServer::bind` (`tcpserver.cpp:34-58`): the answer, the server and the vector. -/
def bind (server : TcpServer σ) (attempts : List (Attempt α σ)) (failedAddrs : List α) :
    Bool × TcpServer σ × List α :=
  let (socks, failedAddrs) := bindAll attempts server.socks failedAddrs
  if failedAddrs.isEmpty then (true, { server with socks }, failedAddrs)
  else (false, { server with socks := [] }, failedAddrs)

/-- The addresses of a call that have failed. -/
def failures (attempts : List (Attempt α σ)) : List α :=
  (attempts.filter fun t => !t.succeeds).map Attempt.addr

/-- What a call leaves behind is that of a call that has done everything, or nothing. -/
structure AllOrNothing (server : TcpServer σ) (attempts : List (Attempt α σ))
    (failedAddrs : List α) (r : Bool × TcpServer σ × List α) : Prop where
  answer : r.1 = true ↔ ∀ t ∈ attempts, t.succeeds = true
  done : r.1 = true → r.2.1.socks = server.socks ++ attempts.map Attempt.sock
  undone : r.1 = false →
    r.2.1.socks = server.socks ∧ r.2.2 = failedAddrs ++ failures attempts

/-- A call that succeeds gets an empty vector, and one that fails has no sockets from before. -/
def Fresh (server : TcpServer σ) (attempts : List (Attempt α σ)) (failedAddrs : List α) : Prop :=
  if attempts.all Attempt.succeeds then failedAddrs = [] else server.socks = []

variable {server : TcpServer σ} {attempts : List (Attempt α σ)} {failedAddrs : List α}

theorem bindAll_eq (attempts : List (Attempt α σ)) (socks : List σ) (failedAddrs : List α) :
    bindAll attempts socks failedAddrs =
      (socks ++ (attempts.filter Attempt.succeeds).map Attempt.sock,
        failedAddrs ++ failures attempts) := by
  induction attempts generalizing socks failedAddrs with
  | nil => simp [bindAll, failures]
  | cons t rest ih =>
    obtain ⟨addr, sock, bound, listened⟩ := t
    cases bound with
    | false => simp [bindAll, ih, failures, Attempt.succeeds]
    | true =>
      cases listened with
      | false => simp [bindAll, ih, failures, Attempt.succeeds]
      | true => simp [bindAll, ih, failures, Attempt.succeeds]

theorem failures_eq_nil : failures attempts = [] ↔ ∀ t ∈ attempts, t.succeeds = true := by
  simp [failures, List.filter_eq_nil_iff]

/-- The vector decides: a call fails if it gets one that is not empty. -/
theorem bind_eq : server.bind attempts failedAddrs =
    if failedAddrs = [] ∧ failures attempts = [] then
      (true, { server with socks := server.socks ++ attempts.map Attempt.sock }, [])
    else (false, { server with socks := [] }, failedAddrs ++ failures attempts) := by
  rw [bind, bindAll_eq]
  simp only [List.isEmpty_iff, List.append_eq_nil_iff]
  split
  · rename_i h
    obtain ⟨rfl, hnone⟩ := h
    have hall : attempts.filter Attempt.succeeds = attempts :=
      List.filter_eq_self.mpr (failures_eq_nil.mp hnone)
    rw [hall, hnone, List.append_nil]
  · rfl

/-- A vector in which an address has been left makes every later call fail, and takes the sockets
    from the server. -/
theorem bind_reused (h : failedAddrs ≠ []) :
    (server.bind attempts failedAddrs).1 = false ∧
      (server.bind attempts failedAddrs).2.1.socks = [] ∧
        (server.bind attempts failedAddrs).2.2 ≠ [] := by
  rw [bind_eq, if_neg fun hempty => h hempty.1]
  exact ⟨rfl, rfl, by simp [h]⟩

end TcpServer

/-- A call is all or nothing exactly if it succeeds with an empty vector, or fails without sockets
    from before. -/
theorem bind_allOrNothing_iff (server : TcpServer σ) (attempts : List (Attempt α σ))
    (failedAddrs : List α) :
    server.AllOrNothing attempts failedAddrs (server.bind attempts failedAddrs) ↔
      server.Fresh attempts failedAddrs := by
  have hall : attempts.all Attempt.succeeds = true ↔ TcpServer.failures attempts = [] := by
    rw [TcpServer.failures_eq_nil, List.all_eq_true]
  rw [TcpServer.Fresh]
  by_cases hnone : TcpServer.failures attempts = []
  · have hevery := TcpServer.failures_eq_nil.mp hnone
    rw [if_pos (hall.mpr hnone)]
    constructor
    · intro h
      by_contra hne
      have hfalse := (@TcpServer.bind_reused _ _ server attempts _ hne).1
      rw [h.answer.mpr hevery] at hfalse
      cases hfalse
    · rintro rfl
      rw [TcpServer.bind_eq, if_pos ⟨rfl, hnone⟩]
      exact ⟨iff_of_true rfl hevery, fun _ => rfl, fun h => (by cases h)⟩
  · rw [if_neg (fun h => hnone (hall.mp h)), TcpServer.bind_eq, if_neg fun h => hnone h.2]
    constructor
    · exact fun h => (h.undone rfl).1.symm
    · intro hempty
      refine ⟨?_, fun h => (by cases h), fun _ => ⟨hempty.symm, rfl⟩⟩
      exact iff_of_false (by simp) fun h => hnone (TcpServer.failures_eq_nil.mpr h)

/-- A second call with the vector of the first: every address is bound, the answer is false, and
    the sockets are gone. -/
theorem bind_allOrNothing_not :
    let attempts : List (Attempt Nat Nat) := [⟨8020, 3, true, true⟩]
    (TcpServer.mk [7]).bind attempts [8020] = (false, ⟨[]⟩, [8020]) ∧
      ¬(TcpServer.mk [7]).AllOrNothing attempts [8020]
        ((TcpServer.mk [7]).bind attempts [8020]) := by
  refine ⟨rfl, fun h => ?_⟩
  have hanswer := h.answer.mpr (by decide)
  cases hanswer

end CppServerFramework.Stream

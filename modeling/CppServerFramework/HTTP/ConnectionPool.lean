import CppServerFramework.Misc.Machine
import Mathlib.Logic.Function.Basic

/-!
# The connection pool

`HttpConnectionPool::getConnection` and `ReleasePtr` (`HTTP/http_connection.cpp:360`) in the
steps in which several threads execute them at a time: `m_conns` is read and changed in the
locked sections only, `m_total` is an atomic counter beside it.  Connections are objects at
addresses, so that one that is deleted can be told from one that is not.
-/

namespace CppServerFramework.HTTP

/-- What the pool reads of an `HttpConnection` (`http_connection.h:63-64`): the two fields, and the
    answer of `isConnected()`.  `uses` records how often it has been handed out. -/
structure HttpConnection where
  createTime : UInt64
  request : Nat := 0
  connected : Bool := true
  uses : Nat := 0
  deriving DecidableEq

/-- `m_createTime + m_maxAliveTime`, a sum in 64 bits. -/
def HttpConnection.deadline (c : HttpConnection) (maxAliveTime : UInt32) : UInt64 :=
  c.createTime + maxAliveTime.toUInt64

/-- `http_connection.h:93-102` -/
structure HttpConnectionPool where
  maxAliveTime : UInt32
  maxRequest : UInt32
  conns : List Nat := []
  total : Int32 := 0

namespace HttpConnectionPool

variable (pool : HttpConnectionPool)

/-- The locked loop of `getConnection` (`http_connection.cpp:367`): `invalid_conns`, `ptr` and
    what stays in `m_conns`.  There is no result where it meets an address without an object. -/
def popConns (heap : Nat → Option HttpConnection) (now : UInt64) :
    List Nat → Option (List Nat × Option Nat × List Nat)
  | [] => some ([], none, [])
  | conn :: conns =>
    (heap conn).bind fun c =>
      if !c.connected then
        (popConns heap now conns).map fun r => (conn :: r.1, r.2)
      else if c.deadline pool.maxAliveTime < now then
        (popConns heap now conns).map fun r => (conn :: r.1, r.2)
      else some ([], some conn, conns)

/-- Whether `ReleasePtr` destroys the connection (`http_connection.cpp:415`). -/
def destroys (c : HttpConnection) (now : UInt64) : Bool :=
  !c.connected || now ≤ c.deadline pool.maxAliveTime || pool.maxRequest.toNat ≤ c.request

end HttpConnectionPool

/-- What a thread is about to do in a call of the pool. -/
inductive PoolCall where
  | idle
  /-- `getConnection` has unlocked; the connections `rest` of the `size` in `invalid_conns` are
      still to be deleted. -/
  | deleting (rest : List Nat) (size : Nat) (ptr : Option Nat)
  /-- It has found none and opens one. -/
  | connecting
  /-- It has made the connection and does `++m_total`. -/
  | counting (ptr : Nat)
  | returning (ptr : Nat)
  /-- `ReleasePtr` does `++ptr->m_request`. -/
  | releasing (ptr : Nat)
  | deciding (ptr : Nat)
  | destroying (ptr : Nat)
  /-- It has deleted the connection and does `--pool->m_total`. -/
  | uncounting
  | pushing (ptr : Nat)
  deriving DecidableEq

/-- One execution of the locked loop: the connections in `m_conns` before it, the clock, and the
    connection found, if any. -/
structure Acquisition where
  conns : List HttpConnection
  now : UInt64
  found : Option HttpConnection

/-- One decision of `ReleasePtr`: the connection, the clock, and whether it goes back to
    `m_conns`. -/
structure Release where
  conn : HttpConnection
  now : UInt64
  kept : Bool

/-- A pool with the objects on the heap, the calls of `threads` threads, and the connections that
    have been handed out and not been released.  `acquisitions`, `releases` and `useAfterFree`
    record what has happened. -/
structure PoolSystem where
  pool : HttpConnectionPool
  threads : Nat
  heap : Nat → Option HttpConnection := fun _ => none
  calls : Nat → PoolCall := fun _ => .idle
  leases : List Nat := []
  acquisitions : List Acquisition := []
  releases : List Release := []
  useAfterFree : Bool := false

namespace PoolSystem

variable (s : PoolSystem) (t : Nat)

def setCall (c : PoolCall) : PoolSystem := { s with calls := Function.update s.calls t c }

/-- `*ptr = …` -/
def write (ptr : Nat) (c : Option HttpConnection) : PoolSystem :=
  { s with heap := Function.update s.heap ptr c }

/-- `ptr->…`, which goes wrong where there is no object. -/
def deref (ptr : Nat) (k : HttpConnection → PoolSystem) : PoolSystem :=
  match s.heap ptr with
  | some c => k c
  | none => { s with useAfterFree := true }

/-- Anything that ends a connection. -/
def disconnect (ptr : Nat) : Option PoolSystem :=
  (s.heap ptr).map fun c => s.write ptr (some { c with connected := false })

/-- The locked loop of `getConnection`, with the clock read before it
    (`http_connection.cpp:362`). -/
def getConnection (now : UInt64) : Option PoolSystem :=
  match s.calls t with
  | .idle =>
    match s.pool.popConns s.heap now s.pool.conns with
    | some (invalid, ptr, rest) => some { s.setCall t (.deleting invalid invalid.length ptr) with
        pool := { s.pool with conns := rest }
        acquisitions := ⟨s.pool.conns.filterMap s.heap, now, ptr.bind s.heap⟩ :: s.acquisitions }
    | none => some { s with useAfterFree := true }
  | _ => none

/-- `delete i` for the next of `invalid_conns`. -/
def deleteInvalid : Option PoolSystem :=
  match s.calls t with
  | .deleting (conn :: rest) size ptr =>
    some (s.deref conn fun _ => (s.setCall t (.deleting rest size ptr)).write conn none)
  | _ => none

/-- `m_total -= invalid_conns.size()` -/
def subtract : Option PoolSystem :=
  match s.calls t with
  | .deleting [] size ptr =>
    let call := match ptr with
      | some ptr => .returning ptr
      | none => .connecting
    some { s.setCall t call with
      pool := { s.pool with total := s.pool.total - Int32.ofNat size } }
  | _ => none

/-- One of the three exits with `nullptr` (`http_connection.cpp:392`). -/
def fail : Option PoolSystem :=
  match s.calls t with
  | .connecting => some (s.setCall t .idle)
  | _ => none

/-- `new HttpConnection(sock)`, at an address where no object is. -/
def connect (ptr : Nat) (now : UInt64) : Option PoolSystem :=
  match s.calls t with
  | .connecting =>
    if s.heap ptr = none then
      some ((s.setCall t (.counting ptr)).write ptr (some { createTime := now }))
    else none
  | _ => none

/-- `++m_total` -/
def count : Option PoolSystem :=
  match s.calls t with
  | .counting ptr => some { s.setCall t (.returning ptr) with
      pool := { s.pool with total := s.pool.total + 1 } }
  | _ => none

/-- The caller gets the `shared_ptr`. -/
def handOut : Option PoolSystem :=
  match s.calls t with
  | .returning ptr => some { s.setCall t .idle with
      heap := Function.update s.heap ptr ((s.heap ptr).map fun c => { c with uses := c.uses + 1 })
      leases := ptr :: s.leases }
  | _ => none

/-- The last `shared_ptr` to a connection that has been handed out goes, which calls
    `ReleasePtr` (`http_connection.cpp:413`). -/
def releasePtr (ptr : Nat) : Option PoolSystem :=
  match s.calls t with
  | .idle =>
    if ptr ∈ s.leases then some { s.setCall t (.releasing ptr) with leases := s.leases.erase ptr }
    else none
  | _ => none

/-- `++ptr->m_request` -/
def addRequest : Option PoolSystem :=
  match s.calls t with
  | .releasing ptr => some (s.deref ptr fun c =>
      (s.setCall t (.deciding ptr)).write ptr (some { c with request := c.request + 1 }))
  | _ => none

/-- The condition of `ReleasePtr`, with the clock in it. -/
def decideRelease (now : UInt64) : Option PoolSystem :=
  match s.calls t with
  | .deciding ptr => some (s.deref ptr fun c =>
      let destroys := s.pool.destroys c now
      { s.setCall t (if destroys then .destroying ptr else .pushing ptr) with
        releases := ⟨c, now, !destroys⟩ :: s.releases })
  | _ => none

/-- `delete ptr` -/
def destroy : Option PoolSystem :=
  match s.calls t with
  | .destroying ptr => some (s.deref ptr fun _ => (s.setCall t .uncounting).write ptr none)
  | _ => none

/-- `--pool->m_total` -/
def uncount : Option PoolSystem :=
  match s.calls t with
  | .uncounting => some { s.setCall t .idle with
      pool := { s.pool with total := s.pool.total - 1 } }
  | _ => none

/-- The locked `push_back`. -/
def push : Option PoolSystem :=
  match s.calls t with
  | .pushing ptr => some { s.setCall t .idle with
      pool := { s.pool with conns := s.pool.conns ++ [ptr] } }
  | _ => none

end PoolSystem

/-- The steps of thread `t`, and `disconnect`, which is anyone's. -/
inductive PoolAction where
  | disconnect (ptr : Nat)
  | getConnection (t : Nat) (now : UInt64)
  | deleteInvalid (t : Nat)
  | subtract (t : Nat)
  | fail (t : Nat)
  | connect (t : Nat) (ptr : Nat) (now : UInt64)
  | count (t : Nat)
  | handOut (t : Nat)
  | releasePtr (t : Nat) (ptr : Nat)
  | addRequest (t : Nat)
  | decideRelease (t : Nat) (now : UInt64)
  | destroy (t : Nat)
  | uncount (t : Nat)
  | push (t : Nat)
  deriving DecidableEq

/-- The thread that makes the step. -/
def PoolAction.thread : PoolAction → Option Nat
  | .disconnect _ => none
  | .getConnection t _ | .deleteInvalid t | .subtract t | .fail t | .connect t _ _ | .count t
  | .handOut t | .releasePtr t _ | .addRequest t | .decideRelease t _ | .destroy t | .uncount t
  | .push t => some t

def PoolSystem.step (s : PoolSystem) (a : PoolAction) : Option PoolSystem :=
  if a.thread.any (fun t => s.threads ≤ t) then none else
  match a with
  | .disconnect ptr => s.disconnect ptr
  | .getConnection t now => s.getConnection t now
  | .deleteInvalid t => s.deleteInvalid t
  | .subtract t => s.subtract t
  | .fail t => s.fail t
  | .connect t ptr now => s.connect t ptr now
  | .count t => s.count t
  | .handOut t => s.handOut t
  | .releasePtr t ptr => s.releasePtr t ptr
  | .addRequest t => s.addRequest t
  | .decideRelease t now => s.decideRelease t now
  | .destroy t => s.destroy t
  | .uncount t => s.uncount t
  | .push t => s.push t

/-- A new pool that is used by `threads` threads. -/
def PoolSystem.start (maxAliveTime maxRequest : UInt32) (threads : Nat) : PoolSystem where
  pool := { maxAliveTime := maxAliveTime, maxRequest := maxRequest }
  threads := threads

def poolMachine : Machine PoolSystem PoolAction where
  init s := ∃ maxAliveTime maxRequest threads, s = .start maxAliveTime maxRequest threads
  step := PoolSystem.step

end CppServerFramework.HTTP

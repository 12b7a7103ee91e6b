import CppServerFramework.Misc.Machine
import CppServerFramework.Stream.TcpServer

/-!
# Running a server

`TcpServer::start`, `startAccept` and `stop` (`stream/tcpserver.cpp:60-101`) with `bind`.  The loops
and the clean-ups of `stop` are tasks of the accept worker, which any number of threads run beside
the thread that calls the server.  Sockets are numbers, in the order in which they are made; the
descriptor of one that is closed is not given out again while a loop is in `accept` with it.
-/

namespace CppServerFramework.Stream

/-- Where a task of `startAccept` stands: about to test `m_isStop`, about to call `accept_f` in
    `accept`, about to add an event because there was no client, waiting for that event, with a
    client that is to be handed over, or at its end.  `behind` is whether the event was added behind
    the last `cancelAll` of a clean-up. -/
inductive AcceptPhase where
  | testing
  | calling
  | adding
  | waiting (behind : Bool)
  | handing (client : Nat)
  | ended
  deriving DecidableEq, Repr

/-- What the loop meets outside: a client, none yet (`EAGAIN`), a failure, or that the event is
    added, or triggered. -/
inductive AcceptAnswer where
  | client (c : Nat)
  | again
  | fails
  | event
  deriving DecidableEq, Repr

structure AcceptLoop where
  sock : Nat
  phase : AcceptPhase
  deriving DecidableEq, Repr

namespace AcceptPhase

/-- The loop waits for an event, if need be for ever. -/
def waits : AcceptPhase → Bool
  | .waiting _ => true
  | _ => false

/-- The loop of `startAccept` (`tcpserver.cpp:66-77`) with the hooked `accept` in it
    (`hook.cpp:111-177`).  A closed socket has no client and takes no event; what was triggered
    before it was closed may still come behind it. -/
def next (isStop closed cancelled : Bool) : AcceptAnswer → AcceptPhase → Option AcceptPhase
  | _, .testing => some (if isStop then .ended else .calling)
  | .client c, .calling => if closed then none else some (.handing c)
  | .again, .calling => if closed then none else some .adding
  | .fails, .calling => some .testing
  | .event, .adding => if closed then none else some (.waiting cancelled)
  | .fails, .adding => some .testing
  | .event, .waiting _ => some .calling
  | _, .handing _ => some .testing
  | _, _ => none

end AcceptPhase

namespace AcceptLoop

variable (l : AcceptLoop)

/-- Whether the loop may still make a step. -/
def live : Bool := l.phase ≠ .ended

/-- Whether the loop has passed the test of `m_isStop`, and not come back to it. -/
def inside : Bool := l.phase ≠ .ended ∧ l.phase ≠ .testing

/-- Whether the loop waits for an event. -/
def waits : Bool := l.phase.waits

/-- The event of the loop is triggered if it waits on this socket (`iomanager.cpp:203-242`). -/
def cancel (sock : Nat) : AcceptLoop :=
  if l.sock = sock ∧ l.waits then { l with phase := .calling } else l

end AcceptLoop

/-- Where a clean-up stands in its loop over `m_socks`: about to begin, or with the socket at `pos`
    about to call `cancelAll`, `close`, and `close_f` in it, before which the hooked `close` calls
    `cancelAll` once more (`hook.cpp:372-381`); `stop` is the end that the loop was begun with. -/
inductive CleanupPhase where
  | scheduled
  | cancelling (pos stop : Nat)
  | closing (pos stop : Nat)
  | releasing (pos stop : Nat)
  deriving DecidableEq, Repr

/-- A server with its tasks.  `cancelled` and `closed` are the sockets for which a clean-up has come
    to the last `cancelAll` and to `close_f`, and `strayed` is whether one has used an element of
    `m_socks` that another one had cleared.  `accepted` and `handed` record the clients; `stopped`
    is how many loops there were when `m_isStop` was last set, and `late` how many clients have been
    handed over since. -/
structure ServerRun where
  isStop : Bool := true
  server : TcpServer Nat := {}
  made : Nat := 0
  cancelled : List Nat := []
  closed : List Nat := []
  loops : List AcceptLoop := []
  cleanups : List CleanupPhase := []
  strayed : Bool := false
  accepted : List Nat := []
  handed : List Nat := []
  stopped : Nat := 0
  late : Nat := 0

inductive ServerAction where
  /-- the answers of `bind` and `listen` for each address -/
  | bind (answers : List (Bool × Bool))
  | start
  | stop
  | accept (i : Nat) (answer : AcceptAnswer)
  | beginCleanup (j : Nat)
  | cancelSock (j : Nat)
  | hookClose (j : Nat)
  | closeSock (j : Nat)
  | endCleanup (j : Nat)
  deriving DecidableEq, Repr

namespace ServerRun

variable (s : ServerRun)

/-- `bind` with an empty vector of failed addresses (`tcpserver.cpp:27-58`). -/
def bind (answers : List (Bool × Bool)) : ServerRun :=
  let attempts : List (Attempt Unit Nat) :=
    answers.mapIdx fun i r => ⟨(), s.made + i, r.1, r.2⟩
  { s with server := (s.server.bind attempts []).2.1, made := s.made + answers.length }

/-- `start` (`tcpserver.cpp:79-90`). -/
def start : ServerRun :=
  if !s.isStop then s
  else { s with isStop := false, loops := s.loops ++ s.server.socks.map (AcceptLoop.mk · .testing) }

/-- `stop` (`tcpserver.cpp:92-101`), which schedules the clean-up. -/
def stop : ServerRun :=
  { s with
    isStop := true
    cleanups := s.cleanups ++ [.scheduled]
    stopped := if s.isStop then s.stopped else s.loops.countP AcceptLoop.live
    late := if s.isStop then s.late else 0 }

/-- A step of a loop. -/
def accept (i : Nat) (answer : AcceptAnswer) : Option ServerRun :=
  s.loops[i]?.bind fun l =>
    (l.phase.next s.isStop (s.closed.any (· = l.sock)) (s.cancelled.any (· = l.sock)) answer).map
      fun phase =>
        let s := { s with loops := s.loops.set i { l with phase } }
        match l.phase, phase with
        | .handing client, _ =>
          { s with handed := client :: s.handed, late := if s.isStop then s.late + 1 else s.late }
        | _, .handing client => { s with accepted := client :: s.accepted }
        | _, _ => s

/-- `sock->cancelAll()` in the loop of a clean-up. -/
def cancelSock (j pos stop : Nat) : ServerRun :=
  match s.server.socks[pos]? with
  | some sock =>
    { s with
      loops := s.loops.map (·.cancel sock), cleanups := s.cleanups.set j (.closing pos stop) }
  | none => { s with strayed := true }

/-- `sock->close()`, up to `close_f`. -/
def hookClose (j pos stop : Nat) : ServerRun :=
  match s.server.socks[pos]? with
  | some sock =>
    { s with
      loops := s.loops.map (·.cancel sock)
      cancelled := sock :: s.cancelled
      cleanups := s.cleanups.set j (.releasing pos stop) }
  | none => { s with strayed := true }

/-- `close_f` -/
def closeSock (j pos stop : Nat) : ServerRun :=
  match s.server.socks[pos]? with
  | some sock =>
    { s with closed := sock :: s.closed, cleanups := s.cleanups.set j (.cancelling (pos + 1) stop) }
  | none => { s with strayed := true }

/-- `m_socks.clear()` -/
def endCleanup (j : Nat) : ServerRun :=
  { s with server := { s.server with socks := [] }, cleanups := s.cleanups.eraseIdx j }

def step : ServerAction → Option ServerRun
  | .bind answers => some (s.bind answers)
  | .start => some s.start
  | .stop => some s.stop
  | .accept i answer => s.accept i answer
  | .beginCleanup j =>
    match s.cleanups[j]? with
    | some .scheduled =>
      some { s with cleanups := s.cleanups.set j (.cancelling 0 s.server.socks.length) }
    | _ => none
  | .cancelSock j =>
    match s.cleanups[j]? with
    | some (.cancelling pos stop) => if pos < stop then some (s.cancelSock j pos stop) else none
    | _ => none
  | .hookClose j =>
    match s.cleanups[j]? with
    | some (.closing pos stop) => some (s.hookClose j pos stop)
    | _ => none
  | .closeSock j =>
    match s.cleanups[j]? with
    | some (.releasing pos stop) => some (s.closeSock j pos stop)
    | _ => none
  | .endCleanup j =>
    match s.cleanups[j]? with
    | some (.cancelling pos stop) => if pos < stop then none else some (s.endCleanup j)
    | _ => none

end ServerRun

namespace ServerRun

/-- Nothing of the server is running: it is stopped, no clean-up is left, and every loop has
    ended. -/
def Rests (s : ServerRun) : Prop :=
  s.isStop = true ∧ s.cleanups = [] ∧ ∀ l ∈ s.loops, l.live = false

/-- The condition on a step: `bind` is called at rest, `start` at rest or on a server that is
    running, and a clean-up begins when no other one is under way. -/
def AtRest (s : ServerRun) : ServerAction → Prop
  | .bind _ => s.Rests
  | .start => s.isStop = true → s.Rests
  | .beginCleanup _ => ∀ c ∈ s.cleanups, c = .scheduled
  | _ => True

end ServerRun

end CppServerFramework.Stream

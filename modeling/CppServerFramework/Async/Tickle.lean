import CppServerFramework.Async.Scheduler

/-!
# Waking the workers of an I/O manager

The loop of `Scheduler::run` on any number of workers with the idle fiber of `IOManager`: a
worker that finds nothing to do sleeps in `epoll_wait`, and `tickle` wakes one by a byte in a
pipe.  A step is one section under the queue mutex, one call of `tickle`, one draining of the
pipe or one step in or out of `epoll_wait`.  A fiber that is swapped in comes back in one
step, in which its state changes and its worker goes on.
-/

namespace CppServerFramework.Async

/-- Where a worker stands in the loop of `run` and in `IOManager::idle`. -/
inductive IOPhase where
  /-- about to lock the queue -/
  | scan
  /-- has passed an entry pinned to another thread, and calls `tickle` next -/
  | passed (ft : Option Job)
  /-- has taken an entry -/
  | claimed (t : Job)
  | running (f : Nat)
  /-- the fiber has come back `READY` and is to be scheduled again -/
  | requeue (f : Nat)
  /-- has scheduled it into an empty queue, and calls `tickle` next -/
  | requeued
  /-- has found nothing to do -/
  | beforeIdle
  /-- in the idle fiber, about to test `stopping` -/
  | idling
  /-- in `epoll_wait` -/
  | asleep
  /-- behind `epoll_wait`, with or without an event of the pipe still to handle -/
  | woken (tickled : Bool)
  /-- has left the loop -/
  | done
  deriving DecidableEq, Repr

def FiberState.ended (st : FiberState) : Bool := st = .term ∨ st = .except

/-- A worker that takes the task runs it: a callback, or a fiber that neither runs nor has
    ended. -/
def Job.executable (state : Nat → FiberState) : Job → Bool
  | .fiber f => state f ≠ .exec ∧ !(state f).ended
  | .cb => true

/-- The workers of an I/O manager.  `tickles` counts the threads that have pushed an entry into
    an empty queue and have yet to call `tickle`, `bytes` the bytes in the pipe; `idleTerm`
    tells whether the idle fiber of a worker has ended. -/
structure IOWorkers where
  threads : Nat
  state : Nat → FiberState := fun _ => .init
  queue : List FiberAndThread := []
  phase : Nat → IOPhase := fun _ => .scan
  idleTerm : Nat → Bool := fun _ => false
  tickles : Nat := 0
  bytes : Nat := 0
  idleThreadCount : Nat := 0

namespace IOWorkers

def setPhase (s : IOWorkers) (w : Nat) (p : IOPhase) : IOWorkers :=
  { s with phase := Function.update s.phase w p }

def setState (s : IOWorkers) (f : Nat) (st : FiberState) : IOWorkers :=
  { s with state := Function.update s.state f st }

/-- `IOManager::tickle` (`iomanager.cpp:284-290`). -/
def tickle (s : IOWorkers) : IOWorkers :=
  if s.idleThreadCount = 0 then s else { s with bytes := s.bytes + 1 }

/-- The section of `schedule` under the mutex (`scheduler.h:27-55`): entries that are set go to
    the end of the queue, and the caller is to tickle if the queue was empty. -/
def schedule (s : IOWorkers) (es : List FiberAndThread) : IOWorkers :=
  { s with
    queue := s.queue ++ es
    tickles := if s.queue = [] ∧ es ≠ [] then s.tickles + 1 else s.tickles }

/-- The call of `tickle` behind that section. -/
def scheduleTickle (s : IOWorkers) : Option IOWorkers :=
  if 0 < s.tickles then some { s with tickles := s.tickles - 1 }.tickle else none

/-- The scan of the queue (`scheduler.cpp:161-190`). -/
def scan (s : IOWorkers) (w : Nat) : Option IOWorkers :=
  match s.phase w with
  | .scan =>
    let r := scanQueue s.state w s.queue
    let ft := r.ft.map FiberAndThread.task
    some ({ s with queue := r.rest }.setPhase w
      (if r.tickleMe then .passed ft
      else
        match ft with
        | some t => .claimed t
        | none => .beforeIdle))
  | _ => none

/-- The calls of `tickle` a worker makes itself: behind the scan (`scheduler.cpp:192-195`) and
    when it schedules a fiber again (`scheduler.cpp:205`, `229`). -/
def workerTickle (s : IOWorkers) (w : Nat) : Option IOWorkers :=
  match s.phase w with
  | .passed (some t) => some (s.tickle.setPhase w (.claimed t))
  | .passed none => some (s.tickle.setPhase w .beforeIdle)
  | .requeued => some (s.tickle.setPhase w .scan)
  | _ => none

/-- The worker swaps in fiber `f`: the fiber it has taken, unless that has ended, or a new or
    reset fiber for the callback it has taken (`scheduler.cpp:197-199`, `217-225`). -/
def swapIn (s : IOWorkers) (w f : Nat) : Option IOWorkers :=
  match s.phase w with
  | .claimed (.fiber g) =>
    if f = g ∧ (Job.fiber f).executable s.state then
      some ((s.setState f .exec).setPhase w (.running f))
    else none
  | .claimed .cb =>
    if s.state f = .init then some ((s.setState f .exec).setPhase w (.running f)) else none
  | _ => none

/-- The fiber taken has ended: it is dropped (`scheduler.cpp:242-245`). -/
def drop (s : IOWorkers) (w : Nat) : Option IOWorkers :=
  match s.phase w with
  | .claimed (.fiber f) => if (s.state f).ended then some (s.setPhase w .scan) else none
  | _ => none

/-- The fiber comes back (`scheduler.cpp:201-210`, `228-237`), in state `INIT` if it has run a
    callback and been reset. -/
def finish (s : IOWorkers) (w : Nat) (st : FiberState) : Option IOWorkers :=
  match s.phase w with
  | .running f =>
    if st = .exec then none
    else some ((s.setState f st).setPhase w (if st = .ready then .requeue f else .scan))
  | _ => none

/-- The section of `schedule` under the mutex for a fiber that is `READY`. -/
def requeue (s : IOWorkers) (w : Nat) : Option IOWorkers :=
  match s.phase w with
  | .requeue f =>
    some (({ s with queue := s.queue ++ [⟨.fiber f, none⟩] } : IOWorkers).setPhase w
      (if s.queue = [] then .requeued else .scan))
  | _ => none

/-- The idle fiber is swapped in, unless it has ended (`scheduler.cpp:246-251`). -/
def enterIdle (s : IOWorkers) (w : Nat) : Option IOWorkers :=
  match s.phase w with
  | .beforeIdle =>
    if s.idleTerm w then some (s.setPhase w .done)
    else some ({ s with idleThreadCount := s.idleThreadCount + 1 }.setPhase w .idling)
  | _ => none

/-- `stopping` does not hold, and the worker calls `epoll_wait` (`iomanager.cpp:309-336`). -/
def sleep (s : IOWorkers) (w : Nat) : Option IOWorkers :=
  match s.phase w with
  | .idling => some (s.setPhase w .asleep)
  | _ => none

/-- `stopping` holds, which it does only for an empty queue (`scheduler.cpp:267`): the idle
    fiber ends (`iomanager.cpp:311-314`). -/
def stop (s : IOWorkers) (w : Nat) : Option IOWorkers :=
  match s.phase w with
  | .idling =>
    if s.queue = [] then
      some ({ s with
        idleThreadCount := s.idleThreadCount - 1
        idleTerm := Function.update s.idleTerm w true }.setPhase w .scan)
    else none
  | _ => none

/-- `epoll_wait` returns: with an event of the pipe, which then holds a byte, or with another
    event or a timeout. -/
def wake (s : IOWorkers) (w : Nat) (tickled : Bool) : Option IOWorkers :=
  match s.phase w with
  | .asleep =>
    if tickled = true ∧ s.bytes = 0 then none else some (s.setPhase w (.woken tickled))
  | _ => none

/-- The pipe is read until it is empty (`iomanager.cpp:348-350`). -/
def drain (s : IOWorkers) (w : Nat) : Option IOWorkers :=
  match s.phase w with
  | .woken true => some ({ s with bytes := 0 }.setPhase w (.woken false))
  | _ => none

/-- The idle fiber swaps out (`iomanager.cpp:401-404`, `scheduler.cpp:252`). -/
def leaveIdle (s : IOWorkers) (w : Nat) : Option IOWorkers :=
  match s.phase w with
  | .woken false =>
    some ({ s with idleThreadCount := s.idleThreadCount - 1 }.setPhase w .scan)
  | _ => none

end IOWorkers

/-- The steps of the threads.  Anyone may schedule entries and then tickles if it has to;
    `notify` is a call of `tickle` from `stop` (`scheduler.cpp:107-113`) or for a timer
    inserted at the front (`iomanager.cpp:411-413`). -/
inductive TickleAction where
  | schedule (es : List FiberAndThread)
  | scheduleTickle
  | notify
  | scan (w : Nat)
  | workerTickle (w : Nat)
  | swapIn (w f : Nat)
  | drop (w : Nat)
  | finish (w : Nat) (st : FiberState)
  | requeue (w : Nat)
  | enterIdle (w : Nat)
  | sleep (w : Nat)
  | stop (w : Nat)
  | wake (w : Nat) (tickled : Bool)
  | drain (w : Nat)
  | leaveIdle (w : Nat)
  deriving DecidableEq, Repr

def TickleAction.worker : TickleAction → Option Nat
  | .schedule _ | .scheduleTickle | .notify => none
  | .scan w | .workerTickle w | .swapIn w _ | .drop w | .finish w _ | .requeue w | .enterIdle w
  | .sleep w | .stop w | .wake w _ | .drain w | .leaveIdle w => some w

def IOWorkers.step (s : IOWorkers) (a : TickleAction) : Option IOWorkers :=
  if a.worker.any fun w => s.threads ≤ w then none
  else
    match a with
    | .schedule es => some (s.schedule es)
    | .scheduleTickle => s.scheduleTickle
    | .notify => some s.tickle
    | .scan w => s.scan w
    | .workerTickle w => s.workerTickle w
    | .swapIn w f => s.swapIn w f
    | .drop w => s.drop w
    | .finish w st => s.finish w st
    | .requeue w => s.requeue w
    | .enterIdle w => s.enterIdle w
    | .sleep w => s.sleep w
    | .stop w => s.stop w
    | .wake w tickled => s.wake w tickled
    | .drain w => s.drain w
    | .leaveIdle w => s.leaveIdle w

/-- An I/O manager with any number of workers, each about to enter the loop. -/
def tickleMachine : Machine IOWorkers TickleAction where
  init s := ∃ threads, s = { threads := threads }
  step := IOWorkers.step

end CppServerFramework.Async

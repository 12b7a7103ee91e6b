import CppServerFramework.Async.IdleTimeout
import CppServerFramework.Async.Tickle

/-!
# Waking the workers for a timer

The workers of an I/O manager, as they loop in `Scheduler::run`, with its timers.  In the idle
fiber a worker evaluates `getNextTimer` and sleeps in `epoll_wait` for the timeout that comes of
it; awake again it calls `listExpiredCb`, schedules the functions it is given, handles the events
and swaps out.  A timer is added in two steps: the insertion with the test of `at_front`, and the
call of `tickle` that it asks for.  A call of `epoll_wait` that a signal interrupts is made again
with the same timeout; it keeps the deadline of its evaluation here.
-/

namespace CppServerFramework.Async

/-- What a worker behind `epoll_wait` has done with the timers (`iomanager.cpp:338-343`). -/
inductive Collecting where
  /-- about to call `listExpiredCb` -/
  | due
  /-- has been given functions, and schedules them next -/
  | given (cbs : List (Option TimerCallback))
  | done
  deriving DecidableEq, Repr

/-- The workers and the timers.  A worker asleep has read the clock at `since`, and `timeout` is
    that of its call of `epoll_wait`; `fronts` counts the threads that have put a timer in front of
    the others and have yet to call `tickle`. -/
structure TimerWorkers where
  io : IOWorkers
  manager : TimerManager
  since : Nat → UInt64 := fun _ => 0
  timeout : Nat → Int := fun _ => 0
  collecting : Nat → Collecting := fun _ => .done
  fronts : Nat := 0

namespace TimerWorkers

/-- `TimerManager::addTimer` up to the call of `onTimerInsertedAtFront` (`timer.cpp:99-119`). -/
def addTimer (s : TimerWorkers) (ms : UInt64) (cb : Option TimerCallback) (recurring : Bool)
    (now : UInt64) (addr : Nat) : Option TimerWorkers :=
  if s.manager.Fresh addr then
    let added := s.manager.addTimer ms cb recurring now addr
    some { s with manager := added.1, fronts := if added.2 then s.fronts + 1 else s.fronts }
  else none

/-- `onTimerInsertedAtFront` (`iomanager.cpp:411-413`). -/
def frontTickle (s : TimerWorkers) : Option TimerWorkers :=
  if 0 < s.fronts then some { s with fronts := s.fronts - 1, io := s.io.tickle } else none

def cancel (s : TimerWorkers) (i : Nat) : Option TimerWorkers :=
  if i < s.manager.count then
    (s.manager.cancel i).map fun cancelled => { s with manager := cancelled.1 }
  else none

/-- `getNextTimer` is evaluated, `stopping` does not hold, and `epoll_wait` is called
    (`iomanager.cpp:309-335`). -/
def evaluate (s : TimerWorkers) (w : Nat) (now : UInt64) : Option TimerWorkers :=
  let next := s.manager.getNextTimer now
  (s.io.sleep w).map fun io =>
    { s with
      io
      manager := next.1
      since := Function.update s.since w now
      timeout := Function.update s.timeout w
        (CInt.intOfSize (IOManager.clampTimeout next.2).toNat) }

/-- `stopping` holds: the idle fiber ends (`iomanager.cpp:298-301`, `311-314`). -/
def stop (s : TimerWorkers) (w : Nat) (now : UInt64) : Option TimerWorkers :=
  let next := s.manager.getNextTimer now
  if next.2 = ~~~0 then (s.io.stop w).map fun io => { s with io, manager := next.1 } else none

/-- `epoll_wait` returns: with an event of the pipe, which then holds a byte, or with another
    event or a timeout. -/
def wake (s : TimerWorkers) (w : Nat) (tickled : Bool) : Option TimerWorkers :=
  (s.io.wake w tickled).map fun io =>
    { s with io, collecting := Function.update s.collecting w .due }

/-- `listExpiredCb` (`iomanager.cpp:339-340`). -/
def collect (s : TimerWorkers) (w : Nat) (now : UInt64) (addr : Nat) : Option TimerWorkers :=
  match s.io.phase w, s.collecting w with
  | .woken _, .due =>
    if s.manager.Fresh addr then
      let collected := s.manager.listExpiredCb now addr
      some { s with
        manager := collected.1
        collecting := Function.update s.collecting w
          (if collected.2 = [] then .done else .given collected.2) }
    else none
  | _, _ => none

/-- The queue entries of functions that are not empty. -/
def entries (cbs : List (Option TimerCallback)) : List FiberAndThread :=
  cbs.reduceOption.map fun _ => ⟨.cb, none⟩

/-- The section under the mutex of `schedule` on a range (`iomanager.cpp:341-342`,
    `scheduler.h:42-55`): the caller is to tickle if the queue was empty, also where all of the
    functions are. -/
def push (s : TimerWorkers) (w : Nat) : Option TimerWorkers :=
  match s.io.phase w, s.collecting w with
  | .woken _, .given cbs =>
    some { s with
      io := { s.io with
        queue := s.io.queue ++ entries cbs
        tickles := if s.io.queue = [] then s.io.tickles + 1 else s.io.tickles }
      collecting := Function.update s.collecting w .done }
  | _, _ => none

/-- The pipe is read until it is empty (`iomanager.cpp:348-350`). -/
def drain (s : TimerWorkers) (w : Nat) : Option TimerWorkers :=
  if s.collecting w = .done then (s.io.drain w).map fun io => { s with io } else none

/-- The idle fiber swaps out (`iomanager.cpp:401-404`). -/
def leaveIdle (s : TimerWorkers) (w : Nat) : Option TimerWorkers :=
  if s.collecting w = .done then (s.io.leaveIdle w).map fun io => { s with io } else none

end TimerWorkers

/-- The steps of the loop of `run`, and those of others that schedule or tickle. -/
def TickleAction.outside : TickleAction → Bool
  | .sleep _ | .stop _ | .wake _ _ | .drain _ | .leaveIdle _ => false
  | _ => true

/-- The steps of the threads.  Anyone may add or cancel a timer. -/
inductive WakeupAction where
  | addTimer (ms : UInt64) (cb : Option TimerCallback) (recurring : Bool) (now : UInt64)
      (addr : Nat)
  | frontTickle
  | cancel (i : Nat)
  | loop (a : TickleAction)
  | evaluate (w : Nat) (now : UInt64)
  | stop (w : Nat) (now : UInt64)
  | wake (w : Nat) (tickled : Bool)
  | collect (w : Nat) (now : UInt64) (addr : Nat)
  | push (w : Nat)
  | drain (w : Nat)
  | leaveIdle (w : Nat)
  deriving DecidableEq, Repr

def WakeupAction.worker : WakeupAction → Option Nat
  | .addTimer .. | .frontTickle | .cancel _ => none
  | .loop a => a.worker
  | .evaluate w _ | .stop w _ | .wake w _ | .collect w _ _ | .push w | .drain w | .leaveIdle w =>
    some w

def TimerWorkers.step (s : TimerWorkers) (a : WakeupAction) : Option TimerWorkers :=
  if a.worker.any fun w => s.io.threads ≤ w then none
  else
    match a with
    | .addTimer ms cb recurring now addr => s.addTimer ms cb recurring now addr
    | .frontTickle => s.frontTickle
    | .cancel i => s.cancel i
    | .loop a => if a.outside then (s.io.step a).map fun io => { s with io } else none
    | .evaluate w now => s.evaluate w now
    | .stop w now => s.stop w now
    | .wake w tickled => s.wake w tickled
    | .collect w now addr => s.collect w now addr
    | .push w => s.push w
    | .drain w => s.drain w
    | .leaveIdle w => s.leaveIdle w

/-- An I/O manager without timers, with any number of workers each about to enter the loop. -/
def wakeupMachine : Machine TimerWorkers WakeupAction where
  init s := ∃ threads previous,
    s = { io := { threads }, manager := { timers := fun _ => { addr := 0 }, previous } }
  step := TimerWorkers.step

end CppServerFramework.Async

import CppServerFramework.Async.Fiber

/-!
# The worker threads of a scheduler

`Scheduler::run` on any number of worker threads over one task queue.  A step is one section
under the queue mutex, one `swapIn` or `swapOut`, or one read or write of a fiber's state;
a worker's `Phase` says where in the loop it stands.  Fibers are numbered in the order of
their creation, the fiber a worker makes for a plain callback included; a worker's idle fiber
is never scheduled and is kept apart.
-/

namespace CppServerFramework.Async

/-- The `fiber` or `cb` of a `FiberAndThread`. -/
inductive Job where
  | fiber (f : Nat)
  | cb
  deriving DecidableEq, Repr

/-- `FiberAndThread` (`scheduler.h:86-120`); the thread is the index of a worker, `none` for
    `-1`. -/
structure FiberAndThread where
  task : Job
  thread : Option Nat
  deriving DecidableEq, Repr

/-- The entry is not pinned to another thread than `w`. -/
def FiberAndThread.mayRun (e : FiberAndThread) (w : Nat) : Bool :=
  e.thread = none ∨ e.thread = some w

/-- The task is a fiber in state `EXEC`. -/
def Job.isExec (state : Nat → FiberState) : Job → Bool
  | .fiber f => state f = .exec
  | .cb => false

/-- What a scan of the queue finds: whether an entry pinned to another thread was passed, the
    entry taken, and the queue it leaves. -/
structure Scan where
  tickleMe : Bool
  ft : Option FiberAndThread
  rest : List FiberAndThread
  deriving DecidableEq, Repr

/-- The loop of `run` over `m_fibers` on worker `w` (`scheduler.cpp:163-189`). -/
def scanQueue (state : Nat → FiberState) (w : Nat) : List FiberAndThread → Scan
  | [] => ⟨false, none, []⟩
  | e :: es =>
    if !e.mayRun w then
      let s := scanQueue state w es
      ⟨true, s.ft, e :: s.rest⟩
    else if e.task.isExec state then
      let s := scanQueue state w es
      ⟨s.tickleMe, s.ft, e :: s.rest⟩
    else ⟨false, some e, es⟩

/-- How a worker runs a fiber: as a queued fiber or as its own `cb_fiber`. -/
inductive Role where
  | task
  | cb
  deriving DecidableEq, Repr

/-- Where a worker stands in the loop of `run`. -/
inductive Phase where
  /-- about to lock the queue -/
  | scan
  /-- has taken an entry -/
  | claimed (t : Job)
  /-- has found the fiber fit to run and is about to swap it in -/
  | entering (f : Nat) (r : Role)
  /-- in the body of the fiber -/
  | running (f : Nat) (r : Role)
  /-- the fiber has set its state and is about to switch back -/
  | leaving (f : Nat) (r : Role)
  /-- `swapIn` has returned -/
  | returned (f : Nat) (r : Role)
  /-- has seen `READY` and is about to schedule the fiber again -/
  | requeue (f : Nat) (r : Role)
  /-- has seen none of `READY`, `TERM`, `EXCEPT` and is about to set `HOLD` -/
  | holding (f : Nat) (r : Role)
  /-- has seen its `cb_fiber` ended and is about to reset it -/
  | resetting (f : Nat)
  | enteringIdle
  | idling
  | returnedIdle
  /-- has left the loop -/
  | done
  deriving DecidableEq, Repr

/-- A worker thread: the loop's position, the fiber `cb_fiber` points to, and the state of its
    idle fiber. -/
structure Worker where
  phase : Phase := .scan
  cbFiber : Option Nat := none
  idle : FiberState := .init
  deriving DecidableEq, Repr

/-- A scheduler: the number of its worker threads, the fibers created so far and their
    states, the queue and the workers. -/
structure Scheduler where
  threads : Nat
  created : Nat := 0
  state : Nat → FiberState := fun _ => .init
  queue : List FiberAndThread := []
  workers : Nat → Worker := fun _ => {}

namespace Scheduler

def setWorker (s : Scheduler) (w : Nat) (x : Worker) : Scheduler :=
  { s with workers := Function.update s.workers w x }

def setPhase (s : Scheduler) (w : Nat) (p : Phase) : Scheduler :=
  s.setWorker w { s.workers w with phase := p }

def setState (s : Scheduler) (f : Nat) (st : FiberState) : Scheduler :=
  { s with state := Function.update s.state f st }

/-- `scheduleNoLock` (`scheduler.h:76-84`) of a task that is set. -/
def scheduleNoLock (s : Scheduler) (t : Job) (thread : Option Nat) : Scheduler :=
  { s with queue := s.queue ++ [⟨t, thread⟩] }

/-- `Fiber::reset` passes its assertion (`fiber.cpp:87`). -/
def mayReset (s : Scheduler) (f : Nat) : Bool :=
  s.state f = .term ∨ s.state f = .init ∨ s.state f = .except

/-- The scan of the queue (`scheduler.cpp:161-190`) and, when it finds nothing, the test of
    the idle fiber (`scheduler.cpp:246-250`). -/
def scan (s : Scheduler) (w : Nat) : Option Scheduler :=
  match (s.workers w).phase with
  | .scan =>
    let r := scanQueue s.state w s.queue
    match r.ft with
    | some e => some ({ s with queue := r.rest }.setPhase w (.claimed e.task))
    | none => some (s.setPhase w (if (s.workers w).idle = .term then .done else .enteringIdle))
  | _ => none

/-- From the entry taken to the fiber to swap in: the test of the state
    (`scheduler.cpp:197`), or the reset or creation of `cb_fiber` (`scheduler.cpp:217-222`).
    An ended fiber is dropped (`scheduler.cpp:242-245`). -/
def prepare (s : Scheduler) (w : Nat) : Option Scheduler :=
  match (s.workers w).phase with
  | .claimed (.fiber f) =>
    some (s.setPhase w
      (if s.state f ≠ .term ∧ s.state f ≠ .except then .entering f .task else .scan))
  | .claimed .cb =>
    match (s.workers w).cbFiber with
    | some f =>
      if s.mayReset f then some ((s.setState f .init).setPhase w (.entering f .cb)) else none
    | none =>
      some ({ s with created := s.created + 1, state := Function.update s.state s.created .init
        }.setWorker w { s.workers w with
          phase := .entering s.created .cb
          cbFiber := some s.created })
  | _ => none

/-- `swapIn` (`fiber.cpp:100-107`), unless its assertion fails. -/
def swapIn (s : Scheduler) (w : Nat) : Option Scheduler :=
  match (s.workers w).phase with
  | .entering f r =>
    if s.state f = .exec then none else some ((s.setState f .exec).setPhase w (.running f r))
  | .enteringIdle =>
    if (s.workers w).idle = .exec then none
    else some (s.setWorker w { s.workers w with phase := .idling, idle := .exec })
  | _ => none

/-- `YieldToReady` sets the state (`fiber.cpp:159`), the switch follows. -/
def yieldToReady (s : Scheduler) (w : Nat) : Option Scheduler :=
  match (s.workers w).phase with
  | .running f r => some ((s.setState f .ready).setPhase w (.leaving f r))
  | _ => none

/-- `YieldToHold` (`fiber.cpp:164-168`): the state stays `EXEC` until the worker changes it. -/
def yieldToHold (s : Scheduler) (w : Nat) : Option Scheduler :=
  match (s.workers w).phase with
  | .running f r => some (s.setPhase w (.returned f r))
  | .idling => some (s.setPhase w .returnedIdle)
  | _ => none

/-- The body of a fiber has returned (`TERM`) or thrown (`EXCEPT`), the switch follows. -/
def leave (s : Scheduler) (w : Nat) (st : FiberState) : Option Scheduler :=
  match (s.workers w).phase with
  | .running f r => some ((s.setState f st).setPhase w (.leaving f r))
  | .idling => some (s.setWorker w { s.workers w with phase := .returnedIdle, idle := st })
  | _ => none

def swapOut (s : Scheduler) (w : Nat) : Option Scheduler :=
  match (s.workers w).phase with
  | .leaving f r => some (s.setPhase w (.returned f r))
  | _ => none

/-- The tests of the state behind `swapIn` (`scheduler.cpp:203-208`, `228-235`, `254-256`). -/
def settle (s : Scheduler) (w : Nat) : Option Scheduler :=
  match (s.workers w).phase with
  | .returned f r =>
    some (s.setPhase w
      (if s.state f = .ready then .requeue f r
      else if s.state f = .term ∨ s.state f = .except then
        match r with
        | .task => .scan
        | .cb => .resetting f
      else .holding f r))
  | .returnedIdle =>
    let idle := (s.workers w).idle
    some (s.setWorker w { s.workers w with
      phase := .scan
      idle := if idle ≠ .term ∧ idle ≠ .except then .hold else idle })
  | _ => none

/-- What follows the tests: the fiber is scheduled again (`scheduler.cpp:205`, `229-230`), put
    on hold (`scheduler.cpp:210`, `236-237`) or reset (`scheduler.cpp:233`).  A `cb_fiber` that
    is not reset is given up. -/
def finish (s : Scheduler) (w : Nat) : Option Scheduler :=
  match (s.workers w).phase with
  | .requeue f .task => some ((s.scheduleNoLock (.fiber f) none).setPhase w .scan)
  | .requeue f .cb => some ((s.scheduleNoLock (.fiber f) none).setWorker w { s.workers w with
      phase := .scan
      cbFiber := none })
  | .holding f .task => some ((s.setState f .hold).setPhase w .scan)
  | .holding f .cb => some ((s.setState f .hold).setWorker w { s.workers w with
      phase := .scan
      cbFiber := none })
  | .resetting f =>
    if s.mayReset f then some ((s.setState f .init).setPhase w .scan) else none
  | _ => none

end Scheduler

/-- The steps of the threads: anyone may create a fiber or schedule a task, the rest are the
    steps of worker `w`. -/
inductive SchedAction where
  | create
  | schedule (t : Job) (thread : Option Nat)
  | scan (w : Nat)
  | prepare (w : Nat)
  | swapIn (w : Nat)
  | yieldToReady (w : Nat)
  | yieldToHold (w : Nat)
  | terminate (w : Nat)
  | throw (w : Nat)
  | swapOut (w : Nat)
  | settle (w : Nat)
  | finish (w : Nat)
  deriving DecidableEq, Repr

def SchedAction.worker : SchedAction → Option Nat
  | .create | .schedule _ _ => none
  | .scan w | .prepare w | .swapIn w | .yieldToReady w | .yieldToHold w | .terminate w | .throw w
  | .swapOut w | .settle w | .finish w => some w

/-- The task may be scheduled: a callback, or a fiber that has been created. -/
def Job.known (s : Scheduler) : Job → Bool
  | .fiber f => f < s.created
  | .cb => true

def Scheduler.step (s : Scheduler) (a : SchedAction) : Option Scheduler :=
  if a.worker.any fun w => s.threads ≤ w then none
  else
    match a with
    | .create => some { s with created := s.created + 1 }
    | .schedule t thread => if t.known s then some (s.scheduleNoLock t thread) else none
    | .scan w => s.scan w
    | .prepare w => s.prepare w
    | .swapIn w => s.swapIn w
    | .yieldToReady w => s.yieldToReady w
    | .yieldToHold w => s.yieldToHold w
    | .terminate w => s.leave w .term
    | .throw w => s.leave w .except
    | .swapOut w => s.swapOut w
    | .settle w => s.settle w
    | .finish w => s.finish w

/-- A scheduler with any number of worker threads, each about to enter the loop. -/
def schedMachine : Machine Scheduler SchedAction where
  init s := ∃ threads, s = { threads := threads }
  step := Scheduler.step

end CppServerFramework.Async

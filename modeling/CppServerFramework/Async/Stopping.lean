import CppServerFramework.Async.Tickle
import CppServerFramework.Async.Timer

/-!
# When an I/O manager has stopped

The loop of `Scheduler::run` with the idle fiber of `IOManager` on any number of workers, as far
as `stopping` depends on it: the queue, `m_activeThreadCount`, the timers and
`m_pendingEventCount`.  A step is one section under a mutex, one update of a counter or one of
the three reads of `IOManager::stopping`.  Waking a sleeping worker is left out: `epoll_wait` may
return at any time.
-/

namespace CppServerFramework.Async

/-- Where a worker stands. -/
inductive StopPhase where
  /-- about to lock the queue -/
  | scan
  /-- has taken an entry and counts as active -/
  | claimed (t : Job)
  /-- the fiber that it has taken has ended -/
  | dropping
  /-- in a task -/
  | running (f : Nat)
  /-- in `addEvent`: the event is counted, and is to be registered -/
  | adding (f : Nat)
  /-- in `delEvent`: the event is no longer counted, and is to be taken out -/
  | deleting (f : Nat)
  /-- in `triggerEvent`, called by a task or by the idle fiber: the event is taken out, and its
      task is to be scheduled -/
  | triggering (o : Option Nat)
  /-- its task is scheduled, and the event is to be counted down -/
  | triggered (o : Option Nat)
  /-- `swapIn` has returned -/
  | returned (f : Nat)
  /-- no longer counts as active, and is about to test the state of the fiber -/
  | settling (f : Nat)
  /-- has seen `READY` and is about to schedule the fiber again -/
  | requeue (f : Nat)
  /-- has found nothing to do -/
  | beforeIdle
  /-- in the idle fiber, about to call `stopping` -/
  | idling
  /-- `getNextTimer` has found no timer -/
  | timerRead
  /-- `m_pendingEventCount` was 0 -/
  | eventsRead
  /-- `stopping` has returned true -/
  | stopped
  /-- `stopping` has returned false; in `epoll_wait` -/
  | asleep
  /-- behind `epoll_wait` -/
  | woken
  /-- `listExpiredCb` has collected so many callbacks, which are to be scheduled -/
  | collected (n : Nat)
  /-- in the loop over the events of `epoll_wait` -/
  | handling
  /-- has left the loop -/
  | done
  deriving DecidableEq, Repr

/-- What a caller of the timers may do. -/
def TimerManager.call (m : TimerManager) : TimerAction → Option TimerManager
  | .addTimer ms cb recurring now addr =>
    if m.Fresh addr then some (m.addTimer ms cb recurring now addr).1 else none
  | .addConditionTimer ms cb weakCond recurring now addr =>
    if m.Fresh addr then some (m.addConditionTimer ms cb weakCond recurring now addr).1 else none
  | .cancel i => if i < m.count then (m.cancel i).map Prod.fst else none
  | .refresh i now => if i < m.count then some (m.refresh i now).1 else none
  | .reset i ms fromNow now => if i < m.count then some (m.reset i ms fromNow now).1 else none
  | .getNextTimer _ | .listExpiredCb _ _ => none

/-- The call makes a new timer. -/
def TimerAction.adds : TimerAction → Bool
  | .addTimer .. | .addConditionTimer .. => true
  | _ => false

/-- An I/O manager.  `events` counts the registered events that no `delEvent` has in hand;
    `requested` says that `stop` has been called; `idleTerm` that the idle fiber of a worker has
    ended. -/
structure Stopping where
  threads : Nat
  timers : TimerManager
  state : Nat → FiberState := fun _ => .init
  queue : List FiberAndThread := []
  phase : Nat → StopPhase := fun _ => .scan
  idleTerm : Nat → Bool := fun _ => false
  activeThreadCount : Nat := 0
  pendingEventCount : Nat := 0
  events : Nat := 0
  requested : Bool := false

namespace Stopping

def setPhase (s : Stopping) (w : Nat) (p : StopPhase) : Stopping :=
  { s with phase := Function.update s.phase w p }

def setState (s : Stopping) (f : Nat) (st : FiberState) : Stopping :=
  { s with state := Function.update s.state f st }

/-! ### The loop of `run` -/

/-- The section under the queue mutex (`scheduler.cpp:161-190`). -/
def scan (s : Stopping) (w : Nat) : Option Stopping :=
  match s.phase w with
  | .scan =>
    let r := scanQueue s.state w s.queue
    match r.ft with
    | some e =>
      some ({ s with queue := r.rest, activeThreadCount := s.activeThreadCount + 1 }.setPhase w
        (.claimed e.task))
    | none => some (s.setPhase w .beforeIdle)
  | _ => none

/-- The fiber taken, or a new or reset one for the callback taken, is swapped in
    (`scheduler.cpp:197-199`, `217-225`); a fiber that has ended is not. -/
def swapIn (s : Stopping) (w f : Nat) : Option Stopping :=
  match s.phase w with
  | .claimed (.fiber g) =>
    if f = g ∧ (Job.fiber f).executable s.state then
      some ((s.setState f .exec).setPhase w (.running f))
    else none
  | .claimed .cb =>
    if s.state f = .init then some ((s.setState f .exec).setPhase w (.running f)) else none
  | _ => none

def drop (s : Stopping) (w : Nat) : Option Stopping :=
  match s.phase w with
  | .claimed (.fiber f) => if (s.state f).ended then some (s.setPhase w .dropping) else none
  | _ => none

/-- The fiber swaps out, `READY`, ended, or still `EXEC` (`YieldToHold`). -/
def swapOut (s : Stopping) (w : Nat) (st : FiberState) : Option Stopping :=
  match s.phase w with
  | .running f => some ((s.setState f st).setPhase w (.returned f))
  | _ => none

/-- `--m_activeThreadCount` (`scheduler.cpp:200`, `226`, `243`). -/
def countDown (s : Stopping) (w : Nat) : Option Stopping :=
  match s.phase w with
  | .dropping => some ({ s with activeThreadCount := s.activeThreadCount - 1 }.setPhase w .scan)
  | .returned f =>
    some ({ s with activeThreadCount := s.activeThreadCount - 1 }.setPhase w (.settling f))
  | _ => none

/-- The tests of the state (`scheduler.cpp:203-211`, `228-238`). -/
def settle (s : Stopping) (w : Nat) : Option Stopping :=
  match s.phase w with
  | .settling f =>
    if s.state f = .ready then some (s.setPhase w (.requeue f))
    else if (s.state f).ended then some (s.setPhase w .scan)
    else some ((s.setState f .hold).setPhase w .scan)
  | _ => none

/-- `schedule(ft.fiber)` (`scheduler.cpp:205`, `229`). -/
def requeue (s : Stopping) (w : Nat) : Option Stopping :=
  match s.phase w with
  | .requeue f =>
    some (({ s with queue := s.queue ++ [⟨.fiber f, none⟩] } : Stopping).setPhase w .scan)
  | _ => none

/-- The test of the idle fiber (`scheduler.cpp:246-251`). -/
def enterIdle (s : Stopping) (w : Nat) : Option Stopping :=
  match s.phase w with
  | .beforeIdle => some (s.setPhase w (if s.idleTerm w then .done else .idling))
  | _ => none

/-! ### `IOManager::stopping` -/

/-- The first read (`iomanager.cpp:299`). -/
def readTimer (s : Stopping) (w : Nat) (now : UInt64) : Option Stopping :=
  match s.phase w with
  | .idling =>
    let (timers, timer) := s.timers.getNextTimer now
    some ({ s with timers }.setPhase w (if timer = ~~~0 then .timerRead else .asleep))
  | _ => none

/-- The second read (`iomanager.cpp:300`). -/
def readEvents (s : Stopping) (w : Nat) : Option Stopping :=
  match s.phase w with
  | .timerRead => some (s.setPhase w (if s.pendingEventCount = 0 then .eventsRead else .asleep))
  | _ => none

/-- The answer of `Scheduler::stopping` (`scheduler.cpp:265-268`). -/
def schedulerStopping (s : Stopping) : Bool :=
  s.requested && s.queue.isEmpty && s.activeThreadCount = 0

/-- The third read. -/
def readQueue (s : Stopping) (w : Nat) : Option Stopping :=
  match s.phase w with
  | .eventsRead => some (s.setPhase w (if s.schedulerStopping then .stopped else .asleep))
  | _ => none

/-! ### The idle fiber -/

/-- The idle fiber ends (`iomanager.cpp:311-314`). -/
def endIdle (s : Stopping) (w : Nat) : Option Stopping :=
  match s.phase w with
  | .stopped =>
    some ({ s with idleTerm := Function.update s.idleTerm w true }.setPhase w .scan)
  | _ => none

/-- `epoll_wait` returns. -/
def wake (s : Stopping) (w : Nat) : Option Stopping :=
  match s.phase w with
  | .asleep => some (s.setPhase w .woken)
  | _ => none

/-- `listExpiredCb` (`iomanager.cpp:338-339`); null callbacks will not be queued. -/
def collect (s : Stopping) (w : Nat) (now : UInt64) (addr : Nat) : Option Stopping :=
  match s.phase w with
  | .woken =>
    let (timers, cbs) := s.timers.listExpiredCb now addr
    some ({ s with timers }.setPhase w (.collected (cbs.filter Option.isSome).length))
  | _ => none

/-- The batch form of `schedule` (`iomanager.cpp:340-343`). -/
def scheduleExpired (s : Stopping) (w : Nat) : Option Stopping :=
  match s.phase w with
  | .collected n =>
    some (({ s with queue := s.queue ++ List.replicate n ⟨.cb, none⟩ } : Stopping).setPhase w
      .handling)
  | _ => none

/-- The idle fiber swaps out (`iomanager.cpp:401-404`). -/
def leaveIdle (s : Stopping) (w : Nat) : Option Stopping :=
  match s.phase w with
  | .handling => some (s.setPhase w .scan)
  | _ => none

/-! ### Events -/

/-- `triggerEvent` takes an event out (`iomanager.cpp:268-269`): in the loop over the events of
    `epoll_wait`, or for `cancelEvent` and `cancelAll` in a task. -/
def trigger (s : Stopping) (w : Nat) : Option Stopping :=
  if s.events = 0 then none
  else
    match s.phase w with
    | .running f => some ({ s with events := s.events - 1 }.setPhase w (.triggering (some f)))
    | .handling => some ({ s with events := s.events - 1 }.setPhase w (.triggering none))
    | _ => none

/-- It schedules the callback or the fiber of the event (`iomanager.cpp:270-277`). -/
def scheduleTriggered (s : Stopping) (w : Nat) (t : Job) : Option Stopping :=
  match s.phase w with
  | .triggering o =>
    some (({ s with queue := s.queue ++ [⟨t, none⟩] } : Stopping).setPhase w (.triggered o))
  | _ => none

/-- `--m_pendingEventCount` (`iomanager.cpp:197`, `233`, `392`). -/
def countTriggered (s : Stopping) (w : Nat) : Option Stopping :=
  match s.phase w with
  | .triggered (some f) =>
    some ({ s with pendingEventCount := s.pendingEventCount - 1 }.setPhase w (.running f))
  | .triggered none =>
    some ({ s with pendingEventCount := s.pendingEventCount - 1 }.setPhase w .handling)
  | _ => none

/-- `addEvent` up to `++m_pendingEventCount` (`iomanager.cpp:109`). -/
def countEvent (s : Stopping) (w : Nat) : Option Stopping :=
  match s.phase w with
  | .running f =>
    some ({ s with pendingEventCount := s.pendingEventCount + 1 }.setPhase w (.adding f))
  | _ => none

/-- The rest of `addEvent` (`iomanager.cpp:112`). -/
def registerEvent (s : Stopping) (w : Nat) : Option Stopping :=
  match s.phase w with
  | .adding f => some ({ s with events := s.events + 1 }.setPhase w (.running f))
  | _ => none

/-- `delEvent` up to `--m_pendingEventCount` (`iomanager.cpp:156`). -/
def uncountEvent (s : Stopping) (w : Nat) : Option Stopping :=
  if s.events = 0 then none
  else
    match s.phase w with
    | .running f =>
      some ({ s with
        events := s.events - 1
        pendingEventCount := s.pendingEventCount - 1 }.setPhase w (.deleting f))
    | _ => none

/-- The rest of `delEvent` (`iomanager.cpp:159`). -/
def removeEvent (s : Stopping) (w : Nat) : Option Stopping :=
  match s.phase w with
  | .deleting f => some (s.setPhase w (.running f))
  | _ => none

/-! ### Tasks and outside threads -/

/-- A task schedules others. -/
def taskSchedule (s : Stopping) (w : Nat) (es : List FiberAndThread) : Option Stopping :=
  match s.phase w with
  | .running _ => some { s with queue := s.queue ++ es }
  | _ => none

/-- A task uses the timers. -/
def taskTimer (s : Stopping) (w : Nat) (a : TimerAction) : Option Stopping :=
  match s.phase w with
  | .running _ => (s.timers.call a).map fun timers => { s with timers }
  | _ => none

end Stopping

/-- The steps of the workers, and those of outside threads: they schedule and add timers until
    one of them calls `stop`. -/
inductive StopAction where
  | schedule (es : List FiberAndThread)
  | timer (a : TimerAction)
  | stop
  | scan (w : Nat)
  | swapIn (w f : Nat)
  | drop (w : Nat)
  | swapOut (w : Nat) (st : FiberState)
  | countDown (w : Nat)
  | settle (w : Nat)
  | requeue (w : Nat)
  | enterIdle (w : Nat)
  | readTimer (w : Nat) (now : UInt64)
  | readEvents (w : Nat)
  | readQueue (w : Nat)
  | endIdle (w : Nat)
  | wake (w : Nat)
  | collect (w : Nat) (now : UInt64) (addr : Nat)
  | scheduleExpired (w : Nat)
  | leaveIdle (w : Nat)
  | trigger (w : Nat)
  | scheduleTriggered (w : Nat) (t : Job)
  | countTriggered (w : Nat)
  | countEvent (w : Nat)
  | registerEvent (w : Nat)
  | uncountEvent (w : Nat)
  | removeEvent (w : Nat)
  | taskSchedule (w : Nat) (es : List FiberAndThread)
  | taskTimer (w : Nat) (a : TimerAction)
  deriving DecidableEq, Repr

def StopAction.worker : StopAction → Option Nat
  | .schedule _ | .timer _ | .stop => none
  | .scan w | .swapIn w _ | .drop w | .swapOut w _ | .countDown w | .settle w | .requeue w
  | .enterIdle w | .readTimer w _ | .readEvents w | .readQueue w | .endIdle w | .wake w
  | .collect w _ _ | .scheduleExpired w | .leaveIdle w | .trigger w | .scheduleTriggered w _
  | .countTriggered w | .countEvent w | .registerEvent w | .uncountEvent w | .removeEvent w
  | .taskSchedule w _ | .taskTimer w _ => some w

def Stopping.step (s : Stopping) (a : StopAction) : Option Stopping :=
  if a.worker.any fun w => s.threads ≤ w then none
  else
    match a with
    | .schedule es => if s.requested then none else some { s with queue := s.queue ++ es }
    | .timer a =>
      if s.requested && a.adds then none else (s.timers.call a).map fun timers => { s with timers }
    | .stop => some { s with requested := true }
    | .scan w => s.scan w
    | .swapIn w f => s.swapIn w f
    | .drop w => s.drop w
    | .swapOut w st => s.swapOut w st
    | .countDown w => s.countDown w
    | .settle w => s.settle w
    | .requeue w => s.requeue w
    | .enterIdle w => s.enterIdle w
    | .readTimer w now => s.readTimer w now
    | .readEvents w => s.readEvents w
    | .readQueue w => s.readQueue w
    | .endIdle w => s.endIdle w
    | .wake w => s.wake w
    | .collect w now addr => s.collect w now addr
    | .scheduleExpired w => s.scheduleExpired w
    | .leaveIdle w => s.leaveIdle w
    | .trigger w => s.trigger w
    | .scheduleTriggered w t => s.scheduleTriggered w t
    | .countTriggered w => s.countTriggered w
    | .countEvent w => s.countEvent w
    | .registerEvent w => s.registerEvent w
    | .uncountEvent w => s.uncountEvent w
    | .removeEvent w => s.removeEvent w
    | .taskSchedule w es => s.taskSchedule w es
    | .taskTimer w a => s.taskTimer w a

/-- Any number of workers, each about to enter the loop, and no timer. -/
def stopMachine : Machine Stopping StopAction where
  init s := ∃ threads previous,
    s = { threads, timers := { timers := fun _ => { addr := 0 }, previous } }
  step := Stopping.step

end CppServerFramework.Async

import CppServerFramework.Async.FdContext

/-!
# A hooked call with a timeout

The hooked calls of one fiber, one after the other, over the I/O manager: `IOhook`
(`hook.cpp:111-173`), which tries the call again when it is resumed, and `IOHook_connect`
(`hook.cpp:206-247`), which does not.  A step is one operation of the fiber, of the timer
manager or of another thread.  The clock is not modelled: a timer in the set may be found
expired at any time, as after a clock rollover (`timer.cpp:167-173`), whatever its timeout is.
-/

namespace CppServerFramework.Async

inductive HookKind where
  | io
  | connect
  deriving DecidableEq, Repr

/-- Where the fiber stands in a hooked call. -/
inductive HookPhase where
  /-- outside of hooked calls -/
  | returned
  /-- at `retry`, about to call the original function -/
  | trying
  /-- the call would block, and a timer is to be armed -/
  | blocked
  /-- about to call `addEvent` -/
  | armed
  /-- `addEvent` has failed, and the timer is to be cancelled -/
  | failed
  /-- about to yield -/
  | registered
  /-- has yielded -/
  | parked
  /-- has been resumed, and is about to cancel its timer -/
  | resumed
  /-- about to test `tinfo->cancelled` -/
  | checking
  deriving DecidableEq, Repr

/-- A timer is in the set, or its callback has been collected and is in the queue of a
    scheduler, or neither. -/
inductive TimerStatus where
  | inSet
  | collected
  | gone
  deriving DecidableEq, Repr

/-- A condition timer: the call whose `timer_info` it watches, and what its callback cancels. -/
structure CondTimer where
  call : Nat
  fd : Nat
  event : Event
  status : TimerStatus
  deriving DecidableEq, Repr

/-- The fiber `fiber` on the scheduler `scheduler`, its current call, the timers its calls have
    armed, the I/O manager, and how often the fiber has been resumed.  `call` stands for the
    `timer_info` of the current call, which lives until the call returns; `timer` is the index
    of the timer of the current attempt. -/
structure HookState where
  fiber : Nat
  scheduler : Nat
  phase : HookPhase := .returned
  kind : HookKind := .io
  fd : Nat := 0
  event : Event := .read
  timeout : UInt64 := 0
  call : Nat := 0
  cancelled : Bool := false
  timer : Option Nat := none
  timers : List CondTimer := []
  resumes : Nat := 0
  io : IOManager := IOManager.initial

namespace HookState

/-- The fiber as a task of its scheduler. -/
def task (s : HookState) : Scheduled := (s.scheduler, .fiber s.fiber)

/-- The fiber has been scheduled more often than resumed. -/
def Pending (s : HookState) : Prop := s.resumes < s.io.scheduled.count s.task

instance (s : HookState) : Decidable s.Pending := inferInstanceAs (Decidable (_ < _))

/-- `Timer::cancel` (`timer.cpp:41-50`): a timer whose callback has been collected is not in
    the set. -/
def cancelTimer (s : HookState) : List CondTimer :=
  match s.timer with
  | some i => s.timers.modify i fun t =>
      { t with status := if t.status = .inSet then .gone else t.status }
  | none => s.timers

/-- A call begins with a new `timer_info` (`hook.cpp:111-112`, `214-217`). -/
def enter (s : HookState) (kind : HookKind) (fd : Nat) (event : Event) (timeout : UInt64) :
    Option HookState :=
  match s.phase with
  | .returned => some { s with
      phase := .trying
      kind := kind
      fd := fd
      event := match kind with
        | .io => event
        | .connect => .write
      timeout := timeout
      call := s.call + 1
      cancelled := false
      timer := none }
  | _ => none

/-- The original function (`hook.cpp:114-122`, `206-212`), which blocks or not. -/
def tryCall (s : HookState) (blocks : Bool) : Option HookState :=
  match s.phase with
  | .trying => some { s with phase := if blocks then .blocked else .returned }
  | _ => none

/-- `addConditionTimer`, unless the timeout is `-1` (`hook.cpp:133-142`, `219-228`). -/
def arm (s : HookState) : Option HookState :=
  match s.phase with
  | .blocked =>
    if s.timeout = -1 then some { s with phase := .armed, timer := none }
    else some { s with
      phase := .armed
      timer := some s.timers.length
      timers := s.timers ++ [⟨s.call, s.fd, s.event, .inSet⟩] }
  | _ => none

/-- `addEvent` for the fiber that is running (`hook.cpp:147-148`, `231-232`). -/
def addEvent (s : HookState) (ctl : Bool) : Option HookState :=
  match s.phase with
  | .armed =>
    match s.io.addEvent s.fd s.event none (some s.scheduler) s.fiber ctl with
    | .ok (io, rt) => some { s with phase := if rt = 0 then .registered else .failed, io := io }
    | .error _ => none
  | _ => none

def yieldToHold (s : HookState) : Option HookState :=
  match s.phase with
  | .registered => some { s with phase := .parked }
  | _ => none

/-- A worker takes the fiber from the queue and swaps it in. -/
def resume (s : HookState) : Option HookState :=
  match s.phase with
  | .parked =>
    if s.Pending then some { s with phase := .resumed, resumes := s.resumes + 1 } else none
  | _ => none

/-- The fiber cancels its timer (`hook.cpp:154-156`, `163-165`, `234-236`, `243-245`). -/
def cancel (s : HookState) : Option HookState :=
  match s.phase with
  | .failed => some { s with phase := .returned, timers := s.cancelTimer }
  | .resumed => some { s with phase := .checking, timers := s.cancelTimer }
  | _ => none

/-- The test of `tinfo->cancelled` (`hook.cpp:166-172`, `237-240`). -/
def check (s : HookState) : Option HookState :=
  match s.phase with
  | .checking => some { s with
      phase := if s.cancelled then .returned
        else
          match s.kind with
          | .io => .trying
          | .connect => .returned }
  | _ => none

/-- `listExpiredCb` takes the timer from the set (`timer.cpp:173-186`). -/
def collect (s : HookState) (i : Nat) : Option HookState :=
  match s.timers[i]? with
  | some ⟨call, fd, event, .inSet⟩ =>
    some { s with timers := s.timers.set i ⟨call, fd, event, .collected⟩ }
  | _ => none

/-- The callback of the timer does something: the `timer_info` it watches exists, and its
    `cancelled` is not set. -/
def effective (s : HookState) (t : CondTimer) : Bool :=
  t.call = s.call ∧ s.phase ≠ .returned ∧ !s.cancelled

/-- A worker runs the callback of a timer (`timer.cpp:126-136`, `hook.cpp:134-141`,
    `220-227`). -/
def callback (s : HookState) (i : Nat) (ctl : Bool) : Option HookState :=
  match s.timers[i]? with
  | some t =>
    if t.status = .collected then
      let s' := { s with timers := s.timers.set i { t with status := .gone } }
      if s.effective t then
        match s.io.cancelEvent t.fd t.event ctl with
        | .ok (io, _) => some { s' with cancelled := true, io := io }
        | .error _ => none
      else some s'
    else none
  | none => none

/-- What another thread may do to the I/O manager: it does not register the fiber, and does not
    delete the event the fiber waits for. -/
def mayDo (s : HookState) : IOAction → Bool
  | .addEvent _ _ _ _ fiber _ => fiber ≠ s.fiber
  | .delEvent fd event _ => ¬ (fd = s.fd ∧ event = s.event)
  | _ => true

/-- A step of another thread: epoll results are dispatched, other fibers wait, a descriptor is
    closed. -/
def other (s : HookState) (a : IOAction) : Option HookState :=
  if s.mayDo a then (s.io.apply a).toOption.map fun io => { s with io := io } else none

end HookState

inductive HookAction where
  | enter (kind : HookKind) (fd : Nat) (event : Event) (timeout : UInt64)
  | tryCall (blocks : Bool)
  | arm
  | addEvent (ctl : Bool)
  | yieldToHold
  | resume
  | cancel
  | check
  | collect (i : Nat)
  | callback (i : Nat) (ctl : Bool)
  | other (a : IOAction)

def HookState.step (s : HookState) : HookAction → Option HookState
  | .enter kind fd event timeout => s.enter kind fd event timeout
  | .tryCall blocks => s.tryCall blocks
  | .arm => s.arm
  | .addEvent ctl => s.addEvent ctl
  | .yieldToHold => s.yieldToHold
  | .resume => s.resume
  | .cancel => s.cancel
  | .check => s.check
  | .collect i => s.collect i
  | .callback i ctl => s.callback i ctl
  | .other a => s.other a

/-- A fiber that has made no hooked call yet. -/
def hookMachine : Machine HookState HookAction where
  init s := ∃ fiber scheduler, s = { fiber := fiber, scheduler := scheduler }
  step := HookState.step

end CppServerFramework.Async

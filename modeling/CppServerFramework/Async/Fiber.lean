import Mathlib.Logic.Function.Basic
import CppServerFramework.Misc.Machine

/-!
# Fibers of one thread

The contexts of `fiber.cpp` on one thread and the switches between them.  A context is the
thread fiber, the root fiber a scheduler built with `use_caller` runs in, the idle fiber of
`Scheduler::run`, or a task.  `swapcontext` saves the point where control stands in one
context and resumes at the point saved in another; a fiber's entry function ends with a
switch, behind which it must not be resumed, because `uc_link` is null.

`entered` is not in the source: it records for each fiber the point its most recent `swapIn`
or `call` saved.
-/

namespace CppServerFramework.Async

inductive Ctx where
  | thread
  | root
  | idle
  | task (i : Nat)
  deriving DecidableEq, Repr

/-- `Fiber::State` (`fiber.h:17-24`). -/
inductive FiberState where
  | init
  | hold
  | exec
  | term
  | ready
  | except
  deriving DecidableEq, Repr

/-- The entry functions `MainFunc`, which ends with `swapOut`, and `MainFuncCaller`, which
    ends with `uncall`. -/
inductive Entry where
  | mainFunc
  | mainFuncCaller
  deriving DecidableEq, Repr

/-- A point in the code of a fiber: the start of its entry function, the switch numbered `n`,
    or behind its final switch. -/
inductive Point where
  | start (c : Ctx)
  | resume (c : Ctx) (n : Nat)
  | past (c : Ctx)
  deriving DecidableEq, Repr

/-- The point lies in the code of `c`, before its final switch. -/
def Point.Inside (p : Point) (c : Ctx) : Prop := p = .start c ∨ ∃ n, p = .resume c n

def Point.isPast : Point → Bool
  | .past _ => true
  | _ => false

/-- The members of `Fiber` that decide where control goes; the thread fiber has no entry
    function. -/
structure Fiber where
  state : FiberState
  entry : Option Entry
  ctx : Point
  deriving DecidableEq, Repr

namespace Fiber

/-- `Fiber::Fiber()` (`fiber.cpp:32-41`). -/
def threadFiber : Fiber := ⟨.exec, none, .start .thread⟩

/-- `Fiber::Fiber(cb, stacksize, use_caller)` (`fiber.cpp:43-64`). -/
def new (c : Ctx) (useCaller : Bool) : Fiber :=
  ⟨.init, some (if useCaller then .mainFunc else .mainFuncCaller), .start c⟩

/-- `Fiber::reset` (`fiber.cpp:85-97`). -/
def reset (f : Fiber) (c : Ctx) : Option Fiber :=
  if f.state = .term ∨ f.state = .init ∨ f.state = .except then
    some { f with state := .init, entry := some .mainFunc, ctx := .start c }
  else none

end Fiber

/-- The fibers of a thread; `caller` tells the thread that built a scheduler with
    `use_caller` from a worker thread.  `current` is `t_fiber` of `fiber.cpp`, `control` the
    point where control resumed at the last switch. -/
structure Thread where
  caller : Bool
  fibers : Ctx → Option Fiber
  current : Ctx
  control : Point
  switches : Nat
  entered : Ctx → Point

namespace Thread

/-- `Scheduler::GetMainFiber`: the root fiber on the caller thread (`scheduler.cpp:27`), the
    thread fiber on a worker (`scheduler.cpp:145`). -/
def mainFiber (s : Thread) : Ctx := if s.caller then .root else .thread

/-- The point at which the running code is about to switch. -/
def here (s : Thread) : Point := .resume s.current s.switches

def modify (s : Thread) (c : Ctx) (f : Fiber → Fiber) : Thread :=
  { s with fibers := Function.update s.fibers c ((s.fibers c).map f) }

def swapcontext (s : Thread) (save load : Ctx) (here : Point) : Option Thread :=
  let s := s.modify save fun f => { f with ctx := here }
  (s.fibers load).map fun f => { s with control := f.ctx, switches := s.switches + 1 }

/-- `Fiber::swapIn` (`fiber.cpp:100-107`) of a fiber that exists. -/
def swapIn (s : Thread) (c : Ctx) : Option Thread :=
  if (s.fibers c).map Fiber.state = some .exec then none
  else
    { s.modify c fun f => { f with state := .exec } with
      current := c
      entered := Function.update s.entered c s.here }.swapcontext s.mainFiber c s.here

/-- `Fiber::swapOut` (`fiber.cpp:109-114`). -/
def swapOut (s : Thread) (c : Ctx) (here : Point) : Option Thread :=
  { s with current := s.mainFiber }.swapcontext c s.mainFiber here

/-- `Fiber::call` (`fiber.cpp:116-122`). -/
def call (s : Thread) (c : Ctx) : Option Thread :=
  { s.modify c fun f => { f with state := .exec } with
    current := c
    entered := Function.update s.entered c s.here }.swapcontext .thread c s.here

/-- `Fiber::uncall` (`fiber.cpp:124-130`). -/
def uncall (s : Thread) (c : Ctx) (here : Point) : Option Thread :=
  { s with current := .thread }.swapcontext c .thread here

/-- `YieldToReady` and `YieldToHold` (`fiber.cpp:157-168`); only the first sets the state. -/
def yield (s : Thread) (ready : Bool) : Option Thread :=
  (s.modify s.current fun f => if ready then { f with state := .ready } else f).swapOut
    s.current s.here

/-- The end of `MainFunc` and `MainFuncCaller` (`fiber.cpp:174-217`), the callback having
    returned or thrown. -/
def leave (s : Thread) (state : FiberState) : Option Thread := do
  let f ← s.fibers s.current
  let s' := s.modify s.current fun f => { f with state := state }
  match ← f.entry with
  | .mainFunc => s'.swapOut s.current (.past s.current)
  | .mainFuncCaller => s'.uncall s.current (.past s.current)

/-- A thread about to run the scheduler.  The root fiber is built with `use_caller`
    (`scheduler.cpp:24`), the idle fiber without (`scheduler.cpp:149`). -/
def initial (caller : Bool) : Thread where
  caller := caller
  fibers
    | .thread => some Fiber.threadFiber
    | .root => if caller then some (Fiber.new .root true) else none
    | .idle => some (Fiber.new .idle false)
    | .task _ => none
  current := .thread
  control := .start .thread
  switches := 0
  entered c := .start c

end Thread

/-- What the code of a thread does between and at its switches. -/
inductive FiberAction where
  | create (i : Nat)
  | reset (i : Nat)
  | swapIn (i : Nat)
  | swapInIdle
  | setHold (c : Ctx)
  | call
  | yieldToReady
  | yieldToHold
  | finish
  | throw
  deriving DecidableEq, Repr

/-- The code of `Scheduler::run` is running. -/
def Thread.inRun (s : Thread) : Bool := s.current = s.mainFiber

/-- A fiber is running that has been entered. -/
def Thread.inFiber (s : Thread) : Bool := s.current ≠ .thread

/-- What the code on a thread can do next.  `run` tests the state of a task before it swaps
    it in (`scheduler.cpp:197`), of the idle fiber only for `TERM` (`scheduler.cpp:246-251`);
    `stop` calls the root fiber (`scheduler.cpp:121`).  Behind its final switch the thread
    has ended. -/
def Thread.step (s : Thread) (a : FiberAction) : Option Thread :=
  if s.control.isPast then none
  else
    match a with
    | .create i =>
      if s.fibers (.task i) = none then
        some { s with fibers := Function.update s.fibers (.task i) (Fiber.new (.task i) false) }
      else none
    | .reset i => do
      let f ← s.fibers (.task i)
      let f ← f.reset (.task i)
      some { s with fibers := Function.update s.fibers (.task i) f }
    | .swapIn i => do
      let f ← s.fibers (.task i)
      if s.inRun ∧ f.state ≠ .term ∧ f.state ≠ .except then s.swapIn (.task i) else none
    | .swapInIdle => do
      let f ← s.fibers .idle
      if s.inRun ∧ f.state ≠ .term then s.swapIn .idle else none
    | .setHold c => do
      let f ← s.fibers c
      if s.inRun ∧ c ≠ s.current ∧ f.state = .exec ∧ c ≠ .thread then
        some (s.modify c fun f => { f with state := .hold })
      else none
    | .call => if s.caller ∧ s.current = .thread then s.call .root else none
    | .yieldToReady => if s.inFiber then s.yield true else none
    | .yieldToHold => if s.inFiber then s.yield false else none
    | .finish => if s.inFiber then s.leave .term else none
    | .throw => if s.inFiber then s.leave .except else none

def fiberMachine (caller : Bool) : Machine Thread FiberAction where
  init s := s = Thread.initial caller
  step := Thread.step

end CppServerFramework.Async

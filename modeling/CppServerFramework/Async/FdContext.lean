import CppServerFramework.Misc.Machine
import Mathlib.Algebra.BigOperators.Group.List.Basic
import Mathlib.Algebra.GroupWithZero.Nat

/-!
# The `FdContext` table of `IOManager`

`IOManager` (`iomanager.cpp`) keeps one `FdContext` per file descriptor: the mask `m_events`
of registered events and, for `READ` and `WRITE`, the context that says what to schedule when
the event fires.  `addEvent`, `delEvent`, `cancelEvent`, `cancelAll` and the handling of one
epoll result in `idle` are each one critical section of the descriptor's mutex, so they are
the atomic steps here.  `epoll_ctl` may fail at any of them: the flag `ctl` of a step says
whether it succeeded.
-/

namespace CppServerFramework.Async

/-- `IOManager::Event` (`iomanager.h:11-15`), without `NONE`. -/
inductive Event where
  | read
  | write
  deriving DecidableEq, Repr

/-- A set of events: the `READ` and `WRITE` bits of a mask. -/
structure EventMask where
  read : Bool := false
  write : Bool := false
  deriving DecidableEq, Repr

namespace EventMask

def has (m : EventMask) : Event → Bool
  | .read => m.read
  | .write => m.write

/-- `m | e`. -/
def insert (m : EventMask) : Event → EventMask
  | .read => { m with read := true }
  | .write => { m with write := true }

/-- `m & ~e`. -/
def erase (m : EventMask) : Event → EventMask
  | .read => { m with read := false }
  | .write => { m with write := false }

/-- `m & n`. -/
def inter (m n : EventMask) : EventMask := ⟨m.read && n.read, m.write && n.write⟩

/-- Every bit of `m` is set in `n`. -/
def subset (m n : EventMask) : Bool := (!m.read || n.read) && (!m.write || n.write)

/-- The number of bits set. -/
def count (m : EventMask) : Nat := m.read.toNat + m.write.toNat

def isNone (m : EventMask) : Bool := !m.read && !m.write

/-- The events of the mask, in the order in which the code handles them. -/
def toList (m : EventMask) : List Event :=
  (if m.read then [.read] else []) ++ (if m.write then [.write] else [])

@[simp] theorem has_insert_self (m : EventMask) (e : Event) : (m.insert e).has e = true := by
  cases e <;> rfl

@[simp] theorem has_erase_self (m : EventMask) (e : Event) : (m.erase e).has e = false := by
  cases e <;> rfl

theorem has_insert_ne (m : EventMask) {e f : Event} (h : f ≠ e) :
    (m.insert e).has f = m.has f := by
  cases e <;> cases f <;> simp_all [has, insert]

theorem has_erase_ne (m : EventMask) {e f : Event} (h : f ≠ e) :
    (m.erase e).has f = m.has f := by
  cases e <;> cases f <;> simp_all [has, erase]

theorem count_insert (m : EventMask) {e : Event} (h : m.has e = false) :
    (m.insert e).count = m.count + 1 := by
  cases e with
  | read =>
    simp_all [has, insert, count]
    omega
  | write => simp_all [has, insert, count]

theorem count_erase (m : EventMask) {e : Event} (h : m.has e = true) :
    (m.erase e).count + 1 = m.count := by
  cases e with
  | read =>
    simp_all [has, erase, count]
    omega
  | write => simp_all [has, erase, count]

end EventMask

/-- What `Scheduler::schedule` is handed: a callback or a fiber. -/
inductive Task where
  | cb (id : Nat)
  | fiber (id : Nat)
  deriving DecidableEq, Repr

/-- `FdContext::EventContext` (`iomanager.h:18-22`): who runs what when the event fires. -/
structure EventContext where
  scheduler : Option Nat := none
  fiber : Option Nat := none
  cb : Option Nat := none
  deriving DecidableEq, Repr

/-- `FdContext` (`iomanager.h:17-33`) without its mutex. -/
structure FdContext where
  read : EventContext := {}
  write : EventContext := {}
  fd : Nat := 0
  events : EventMask := {}
  deriving DecidableEq, Repr

/-- A scheduled task: the scheduler it was handed to, and the task. -/
abbrev Scheduled := Nat × Task

/-- Ways for a step to abort: a failed `ASSERT`, a call through a null `scheduler`, or an
    index beyond the table. -/
inductive Fault where
  | assertion
  | nullScheduler
  | outOfBounds
  deriving DecidableEq, Repr

namespace FdContext

/-- `FdContext::getContext` (`iomanager.cpp:250-259`). -/
def getContext (c : FdContext) : Event → EventContext
  | .read => c.read
  | .write => c.write

/-- Writing through the reference that `getContext` returns. -/
def setContext (c : FdContext) : Event → EventContext → FdContext
  | .read, x => { c with read := x }
  | .write, x => { c with write := x }

@[simp] theorem getContext_setContext (c : FdContext) (e : Event) (x : EventContext) :
    (c.setContext e x).getContext e = x := by
  cases e <;> rfl

theorem getContext_setContext_ne (c : FdContext) {e f : Event} (h : f ≠ e) (x : EventContext) :
    (c.setContext e x).getContext f = c.getContext f := by
  cases e <;> cases f <;> simp_all [getContext, setContext]

@[simp] theorem setContext_events (c : FdContext) (e : Event) (x : EventContext) :
    (c.setContext e x).events = c.events := by
  cases e <;> rfl

/-- `FdContext::resetContext` (`iomanager.cpp:261-265`). -/
def resetContext (c : FdContext) (e : Event) : FdContext := c.setContext e {}

/-- `FdContext::triggerEvent` (`iomanager.cpp:267-278`).  `schedule(&ctx.cb)` and
    `schedule(&ctx.fiber)` swap the task out of the context; a null fiber is not queued. -/
def triggerEvent (c : FdContext) (e : Event) : Except Fault (FdContext × List Scheduled) :=
  if c.events.has e then
    let ctx := c.getContext e
    let c := { c with events := c.events.erase e }
    match ctx.scheduler with
    | none => .error .nullScheduler
    | some sch =>
      match ctx.cb with
      | some cb => .ok (c.setContext e { ctx with scheduler := none, cb := none }, [(sch, .cb cb)])
      | none =>
        .ok (c.setContext e { ctx with scheduler := none, fiber := none },
          (ctx.fiber.map fun f => (sch, Task.fiber f)).toList)
  else .error .assertion

/-- Triggering the events of a list one after the other. -/
def triggerEvents (c : FdContext) : List Event → Except Fault (FdContext × List Scheduled)
  | [] => .ok (c, [])
  | e :: es => do
    let (c, now) ← c.triggerEvent e
    let (c, later) ← c.triggerEvents es
    return (c, now ++ later)

end FdContext

/-- `m_fdContexts` and `m_pendingEventCount` (`iomanager.h:60-62`), with the list of all
    tasks handed to schedulers so far.  The counter is an integer so that a decrement too
    many would show. -/
structure IOManager where
  fdContexts : List FdContext := []
  pendingEventCount : Int := 0
  scheduled : List Scheduled := []
  deriving DecidableEq, Repr

/-- The flags of an `epoll_event` that the code looks at. -/
structure EpollEvents where
  epollIn : Bool := false
  epollOut : Bool := false
  epollErr : Bool := false
  epollHup : Bool := false
  deriving DecidableEq, Repr

/-- `real_events` (`iomanager.cpp:359-368`): `EPOLLERR` and `EPOLLHUP` count as readable and
    writable. -/
def EpollEvents.realEvents (ev : EpollEvents) : EventMask :=
  let broken := ev.epollErr || ev.epollHup
  ⟨ev.epollIn || broken, ev.epollOut || broken⟩

namespace IOManager

/-- `IOManager::contextResize` (`iomanager.cpp:63-73`): the table has exactly `size` entries
    afterwards, the new ones empty. -/
def contextResize (s : IOManager) (size : Nat) : IOManager :=
  { s with fdContexts := s.fdContexts.take size ++
      (List.range' s.fdContexts.length (size - s.fdContexts.length)).map fun i => { fd := i } }

/-- The table after the first half of `addEvent` (`iomanager.cpp:77-88`): a descriptor
    beyond the table grows it to `fd * 1.5`. -/
def ensureContext (s : IOManager) (fd : Nat) : IOManager :=
  if fd < s.fdContexts.length then s else s.contextResize (fd * 3 / 2)

/-- `IOManager::addEvent` (`iomanager.cpp:75-125`) called on a thread whose scheduler is
    `scheduler` and whose current fiber is `fiber`; `cb` is the callback, if one is given. -/
def addEvent (s : IOManager) (fd : Nat) (e : Event) (cb scheduler : Option Nat) (fiber : Nat)
    (ctl : Bool) : Except Fault (IOManager × Int) :=
  let s := s.ensureContext fd
  match s.fdContexts[fd]? with
  | none => .error .outOfBounds
  | some c =>
    if c.events.has e then .error .assertion
    else if !ctl then .ok (s, -1)
    else
      let ctx := c.getContext e
      if ctx.scheduler.isSome || ctx.fiber.isSome || ctx.cb.isSome then .error .assertion
      else
        let ctx := match cb with
          | some cb => { ctx with scheduler := scheduler, cb := some cb }
          | none => { ctx with scheduler := scheduler, fiber := some fiber }
        let c := { c with events := c.events.insert e }.setContext e ctx
        .ok ({ s with
          fdContexts := s.fdContexts.set fd c
          pendingEventCount := s.pendingEventCount + 1 }, 0)

/-- `IOManager::delEvent` (`iomanager.cpp:127-163`). -/
def delEvent (s : IOManager) (fd : Nat) (e : Event) (ctl : Bool) : IOManager × Bool :=
  match s.fdContexts[fd]? with
  | none => (s, false)
  | some c =>
    if !c.events.has e || !ctl then (s, false)
    else
      let c := { c with events := c.events.erase e }.resetContext e
      ({ s with
        fdContexts := s.fdContexts.set fd c
        pendingEventCount := s.pendingEventCount - 1 }, true)

/-- Triggering `es` on the context `c` of `fd`, with one decrement of the counter each: the
    common tail of `cancelEvent`, `cancelAll` and the dispatch loop. -/
def triggerAt (s : IOManager) (fd : Nat) (c : FdContext) (es : List Event) :
    Except Fault IOManager := do
  let (c, tasks) ← c.triggerEvents es
  return { s with
    fdContexts := s.fdContexts.set fd c
    pendingEventCount := s.pendingEventCount - es.length
    scheduled := s.scheduled ++ tasks }

/-- `IOManager::cancelEvent` (`iomanager.cpp:165-199`). -/
def cancelEvent (s : IOManager) (fd : Nat) (e : Event) (ctl : Bool) :
    Except Fault (IOManager × Bool) :=
  match s.fdContexts[fd]? with
  | none => .ok (s, false)
  | some c =>
    if !c.events.has e || !ctl then .ok (s, false)
    else (s.triggerAt fd c [e]).map fun s => (s, true)

/-- `IOManager::cancelAll` (`iomanager.cpp:201-242`). -/
def cancelAll (s : IOManager) (fd : Nat) (ctl : Bool) : Except Fault (IOManager × Bool) :=
  match s.fdContexts[fd]? with
  | none => .ok (s, false)
  | some c =>
    if c.events.isNone || !ctl then .ok (s, false)
    else (s.triggerAt fd c c.events.toList).map fun s => (s, true)

/-- The handling of one epoll result for `fd` in `IOManager::idle` (`iomanager.cpp:357-397`).
    `real_events` is not narrowed to the registered events before it is triggered.  A result
    carries a pointer to an existing context, so an unknown `fd` does not occur. -/
def dispatch (s : IOManager) (fd : Nat) (ev : EpollEvents) (ctl : Bool) :
    Except Fault IOManager :=
  match s.fdContexts[fd]? with
  | none => .ok s
  | some c =>
    if (c.events.inter ev.realEvents).isNone || !ctl then .ok s
    else s.triggerAt fd c ev.realEvents.toList

end IOManager

/-- The atomic steps: the four public operations, and one epoll result in `idle`. -/
inductive IOAction where
  | addEvent (fd : Nat) (e : Event) (cb scheduler : Option Nat) (fiber : Nat) (ctl : Bool)
  | delEvent (fd : Nat) (e : Event) (ctl : Bool)
  | cancelEvent (fd : Nat) (e : Event) (ctl : Bool)
  | cancelAll (fd : Nat) (ctl : Bool)
  | dispatch (fd : Nat) (ev : EpollEvents) (ctl : Bool)

/-- One step; a step that faults has no successor. -/
def IOManager.apply (s : IOManager) : IOAction → Except Fault IOManager
  | .addEvent fd e cb scheduler fiber ctl => (s.addEvent fd e cb scheduler fiber ctl).map Prod.fst
  | .delEvent fd e ctl => .ok (s.delEvent fd e ctl).1
  | .cancelEvent fd e ctl => (s.cancelEvent fd e ctl).map Prod.fst
  | .cancelAll fd ctl => (s.cancelAll fd ctl).map Prod.fst
  | .dispatch fd ev ctl => s.dispatch fd ev ctl

/-- The state after construction: `contextResize(32)` on an empty table
    (`iomanager.cpp:45-46`). -/
def IOManager.initial : IOManager := IOManager.contextResize {} 32

/-- The event loop as a machine. -/
def ioMachine : Machine IOManager IOAction where
  init s := s = IOManager.initial
  step s a := (s.apply a).toOption

end CppServerFramework.Async

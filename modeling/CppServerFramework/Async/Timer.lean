import CppServerFramework.Misc.Machine
import CppServerFramework.Misc.OrderedSet
import Mathlib.Logic.Function.Basic

/-!
# The timers

`Timer` and `TimerManager` (`async/timer.h`, `async/timer.cpp`).  The timer objects are numbered
in the order of their construction; `m_timers` is the list of the numbers in it, in the order of
the comparator, which reads the due times the timers have at that moment.  A clock reading
(`GetCurrentMS`) and the address of a new object are arguments of the operation.
-/

namespace CppServerFramework.Async

/-- The `std::function<void()>` of a timer: one of the caller's, or the `std::bind` of `OnTimer`
    (`timer.cpp:126-140`), which has a target also where the function bound is empty. -/
inductive TimerCallback where
  | fn (n : Nat)
  | onTimer (weakCond : Nat) (cb : Option Nat)
  deriving DecidableEq, Repr

structure Timer where
  recurring : Bool := false
  ms : UInt64 := 0
  next : UInt64 := 0
  cb : Option TimerCallback := none
  addr : Nat
  deriving DecidableEq, Repr

/-- `Timer::Comparator::operator()` (`timer.cpp:5-23`). -/
def Timer.comparator : Option Timer → Option Timer → Bool
  | none, none => false
  | none, some _ => true
  | some _, none => false
  | some lhs, some rhs =>
    if lhs.next < rhs.next then true
    else if rhs.next < lhs.next then false
    else lhs.addr < rhs.addr

/-- The timers made so far are those below `count`. -/
structure TimerManager where
  timers : Nat → Timer
  count : Nat := 0
  set : List Nat := []
  tickled : Bool := false
  previous : UInt64

namespace TimerManager

/-- The comparator on two elements of `m_timers`, none of which is a null pointer. -/
def less (m : TimerManager) (i j : Nat) : Bool :=
  Timer.comparator (some (m.timers i)) (some (m.timers j))

def setTimer (m : TimerManager) (i : Nat) (t : Timer) : TimerManager :=
  { m with timers := Function.update m.timers i t }

def insert (m : TimerManager) (i : Nat) : TimerManager :=
  { m with set := OrderedSet.insert m.less i m.set }

def erase (m : TimerManager) (i : Nat) : TimerManager :=
  { m with set := OrderedSet.erase m.less i m.set }

def find (m : TimerManager) (i : Nat) : Option Nat := OrderedSet.find m.less i m.set

/-- `addTimer(Timer::ptr, WriteLock&)` (`timer.cpp:107-124`); the answer says whether
    `onTimerInsertedAtFront` is called. -/
def insertTimer (m : TimerManager) (i : Nat) : TimerManager × Bool :=
  let m := m.insert i
  let atFront := m.find i = m.set.head? && !m.tickled
  ({ m with tickled := m.tickled || atFront }, atFront)

/-- `addTimer(ms, cb, recurring)` (`timer.cpp:25-28`, `99-105`). -/
def addTimer (m : TimerManager) (ms : UInt64) (cb : Option TimerCallback) (recurring : Bool)
    (now : UInt64) (addr : Nat) : TimerManager × Bool :=
  let timer : Timer := { recurring, ms, next := now + ms, cb, addr }
  insertTimer { m.setTimer m.count timer with count := m.count + 1 } m.count

/-- `addConditionTimer` (`timer.cpp:138-140`). -/
def addConditionTimer (m : TimerManager) (ms : UInt64) (cb : Option Nat) (weakCond : Nat)
    (recurring : Bool) (now : UInt64) (addr : Nat) : TimerManager × Bool :=
  m.addTimer ms (some (.onTimer weakCond cb)) recurring now addr

/-- `Timer::cancel` (`timer.cpp:41-50`); `none` is the erasure of `end()`. -/
def cancel (m : TimerManager) (i : Nat) : Option (TimerManager × Bool) :=
  match (m.timers i).cb with
  | none => some (m, false)
  | some _ =>
    let m := m.setTimer i { m.timers i with cb := none }
    (m.find i).map fun _ => (m.erase i, true)

/-- `Timer::refresh` (`timer.cpp:52-65`). -/
def refresh (m : TimerManager) (i : Nat) (now : UInt64) : TimerManager × Bool :=
  if (m.timers i).cb = none then (m, false)
  else match m.find i with
  | none => (m, false)
  | some _ =>
    let m := m.erase i
    let m := m.setTimer i { m.timers i with next := now + (m.timers i).ms }
    (m.insert i, true)

/-- `Timer::reset` (`timer.cpp:67-95`); the second answer says whether `onTimerInsertedAtFront`
    is called. -/
def reset (m : TimerManager) (i : Nat) (ms : UInt64) (fromNow : Bool) (now : UInt64) :
    TimerManager × Bool × Bool :=
  if ms = (m.timers i).ms ∧ fromNow = false then (m, true, false)
  else if (m.timers i).cb = none then (m, false, false)
  else match m.find i with
  | none => (m, false, false)
  | some _ =>
    let m := m.erase i
    let start := if fromNow then now else (m.timers i).next - (m.timers i).ms
    let m := m.setTimer i { m.timers i with ms, next := start + ms }
    let (m, atFront) := m.insertTimer i
    (m, true, atFront)

/-- `getNextTimer` (`timer.cpp:142-156`). -/
def getNextTimer (m : TimerManager) (now : UInt64) : TimerManager × UInt64 :=
  let m := { m with tickled := false }
  match m.set with
  | [] => (m, ~~~0)
  | i :: _ => if now ≥ (m.timers i).next then (m, 0) else (m, (m.timers i).next - now)

/-- `detectClockRollover` (`timer.cpp:194-201`): the answer.  `m_previous` becomes the reading. -/
def detectClockRollover (m : TimerManager) (now : UInt64) : Bool :=
  now < m.previous - (60 * 60 * 1000 : UInt64)

/-- The vector `expired` of `listExpiredCb` (`timer.cpp:167-175`), where `m_timers` is not empty:
    `now_timer` is a new object at the address `addr`. -/
def expired (m : TimerManager) (now : UInt64) (addr : Nat) : List Nat :=
  if m.detectClockRollover now then m.set
  else if m.set.head?.any fun i => (m.timers i).next > now then []
  else OrderedSet.upTo
    (fun j => Timer.comparator (some { next := now, addr }) (some (m.timers j))) m.set

/-- One turn of the loop over `expired`, with the vector `cbs` (`timer.cpp:178-186`). -/
def collectOne (now : UInt64) (acc : TimerManager × List (Option TimerCallback)) (i : Nat) :
    TimerManager × List (Option TimerCallback) :=
  let (m, cbs) := acc
  let timer := m.timers i
  (if timer.recurring then (m.setTimer i { timer with next := now + timer.ms }).insert i
    else m.setTimer i { timer with cb := none },
   cbs ++ [timer.cb])

/-- `listExpiredCb` (`timer.cpp:158-187`), on an empty vector `cbs`.  The elements erased are
    those of `expired`, which are the first ones. -/
def listExpiredCb (m : TimerManager) (now : UInt64) (addr : Nat) :
    TimerManager × List (Option TimerCallback) :=
  if m.set = [] then (m, [])
  else
    let expired := m.expired now addr
    expired.foldl (collectOne now)
      ({ m with previous := now, set := m.set.drop expired.length }, [])

/-- `hasTimer` (`timer.cpp:189-192`). -/
def hasTimer (m : TimerManager) : Bool := !m.set.isEmpty

/-- An allocator does not answer the address of an object that exists. -/
def Fresh (m : TimerManager) (addr : Nat) : Prop := ∀ i ∈ m.set, (m.timers i).addr ≠ addr

instance (m : TimerManager) (addr : Nat) : Decidable (m.Fresh addr) :=
  inferInstanceAs (Decidable (∀ i ∈ m.set, (m.timers i).addr ≠ addr))

end TimerManager

/-- A call of an operation of the timers, with the clock reading it makes and the address of the
    object it allocates. -/
inductive TimerAction where
  | addTimer (ms : UInt64) (cb : Option TimerCallback) (recurring : Bool) (now : UInt64)
      (addr : Nat)
  | addConditionTimer (ms : UInt64) (cb : Option Nat) (weakCond : Nat) (recurring : Bool)
      (now : UInt64) (addr : Nat)
  | cancel (i : Nat)
  | refresh (i : Nat) (now : UInt64)
  | reset (i : Nat) (ms : UInt64) (fromNow : Bool) (now : UInt64)
  | getNextTimer (now : UInt64)
  | listExpiredCb (now : UInt64) (addr : Nat)
  deriving DecidableEq, Repr

end CppServerFramework.Async

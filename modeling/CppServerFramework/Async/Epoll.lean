import CppServerFramework.Async.FdTable

/-!
# Readiness

`addEvent`, `delEvent`, `cancelEvent`, `cancelAll` and the loop of `idle` over the results of
`epoll_wait`, with the epoll instance they share.  Its descriptors are waited for with
`EPOLLET`: one that becomes ready is put on a list once, and taken off it by the `epoll_wait`
that returns it.  A result is then in the hands of one worker until it is dispatched, and may
be stale by then.  The operations take their steps on the table one by one, and a result names the
context that the last `epoll_ctl` has given.  The tickle pipe is left out, whose results `idle`
handles apart.
-/

namespace CppServerFramework.Async

/-- The operations of `epoll_ctl`. -/
inductive CtlOp where
  | add
  | mod
  | del
  deriving DecidableEq, Repr

/-- A call of `epoll_ctl`: the operation, and the events of its argument besides `EPOLLET`. -/
abbrev CtlCall := CtlOp × EventMask

/-- What the kernel has for a descriptor: what it is ready for, the events that the epoll
    instance waits for, if it has the descriptor, with the address of the context that it was
    given, and whether it has it on its ready list. -/
structure KernelFd where
  isOpen : Bool := false
  ready : EpollEvents := {}
  interest : Option EventMask := none
  data : Nat := 0
  listed : Bool := false
  deriving DecidableEq, Repr

/-- A flag is set in `b` that is not set in `a`. -/
def EpollEvents.rises (a b : EpollEvents) : Bool :=
  (!a.epollIn && b.epollIn) || (!a.epollOut && b.epollOut) || (!a.epollErr && b.epollErr) ||
    (!a.epollHup && b.epollHup)

namespace KernelFd

/-- What `epoll_wait` returns for the descriptor; errors and hangups are always waited for. -/
def revents (k : KernelFd) : EpollEvents :=
  match k.interest with
  | none => {}
  | some m =>
    ⟨k.ready.epollIn && m.read, k.ready.epollOut && m.write, k.ready.epollErr, k.ready.epollHup⟩

/-- The descriptor with a mask and the context at `p`, put on the list if there is something to
    return. -/
def setInterest (k : KernelFd) (p : Nat) (m : EventMask) : KernelFd :=
  let k := { k with interest := some m, data := p }
  { k with listed := k.listed || EpollEvents.rises {} k.revents }

/-- `epoll_ctl`, which has no result where it fails; `memory` is whether the kernel has some. -/
def epollCtl (k : KernelFd) (memory : Bool) (p : Nat) : CtlCall → Option KernelFd
  | (.add, m) =>
    if k.isOpen && k.interest.isNone && memory then some (k.setInterest p m) else none
  | (.mod, m) => if k.interest.isSome && memory then some (k.setInterest p m) else none
  | (.del, _) =>
    if k.interest.isSome then some { k with interest := none, listed := false } else none

/-- The descriptor becomes ready for other events than before. -/
def becomes (k : KernelFd) (ready : EpollEvents) : KernelFd :=
  let k' := { k with ready := ready }
  { k' with listed := k.listed || k.revents.rises k'.revents }

end KernelFd

/-- `m & ~n`. -/
def EventMask.diff (m n : EventMask) : EventMask := ⟨m.read && !n.read, m.write && !n.write⟩

/-- What the epoll instance has of a descriptor with these events. -/
def EventMask.interest (m : EventMask) : Option EventMask := if m.isNone then none else some m

/-- `m_events` of the context at address `p`. -/
def IOManager.events (s : IOManager) (p : Nat) : EventMask :=
  ((s.fdContexts[p]?).map FdContext.events).getD {}

/-- The call that leaves the events `left` (`iomanager.cpp:142-146`, `181-185`, `377-379`). -/
def CtlCall.leave (left : EventMask) : CtlCall := (if left.isNone then .del else .mod, left)

/-- The call of `epoll_ctl` that an operation makes on the context at `p`, if it comes so far
    (`iomanager.cpp:90-102`, `136-148`, `175-187`, `211-222`). -/
def TableOp.epollCtl (s : IOManager) (p : Nat) (op : TableOp) : Option CtlCall :=
  let events := s.events p
  match op with
  | .addEvent _ e .. =>
    if events.has e then none
    else some (if events.isNone then .add else .mod, events.insert e)
  | .delEvent _ e | .cancelEvent _ e =>
    if events.has e then some (.leave (events.erase e)) else none
  | .cancelAll _ => if events.isNone then none else some (.del, {})

/-- The call of `epoll_ctl` for a result of `epoll_wait` (`iomanager.cpp:371-381`). -/
def IOManager.resultCtl (s : IOManager) (p : Nat) (ev : EpollEvents) : Option CtlCall :=
  if ((s.events p).inter ev.realEvents).isNone then none
  else some (.leave ((s.events p).diff ev.realEvents))

/-- The table with the threads that work on it, the descriptors in the kernel, and of each worker
    the results that its last `epoll_wait` has returned and that it has not dispatched yet, each
    with the address of its context. -/
structure EpollWorld where
  table : FdTable
  kernel : Nat → KernelFd := fun _ => {}
  results : Nat → List (Nat × EpollEvents) := fun _ => []

inductive EpollAction where
  | openFile (fd : Nat)
  | close (fd : Nat)
  | becomes (fd : Nat) (ready : EpollEvents)
  /-- the kernel puts a descriptor on the list once more -/
  | relist (fd : Nat)
  /-- thread `t` calls an operation, grows the table, and goes through the section under the mutex
      of the context -/
  | start (t : Nat) (op : TableOp)
  | grow (t : Nat)
  | perform (t : Nat) (memory : Bool)
  /-- `epoll_wait` of the worker `w` returns -/
  | wait (w : Nat) (fds : List Nat)
  | dispatch (w : Nat) (memory : Bool)

namespace EpollWorld

def setKernel (s : EpollWorld) (fd : Nat) (k : KernelFd) : EpollWorld :=
  { s with kernel := Function.update s.kernel fd k }

/-- Whether the call of `epoll_ctl` with the context at `p`, if there is one, succeeds, and the
    descriptor behind it. -/
def epollCtl (s : EpollWorld) (fd : Nat) (memory : Bool) (p : Nat) :
    Option CtlCall → Bool × KernelFd
  | none => (true, s.kernel fd)
  | some c =>
    match (s.kernel fd).epollCtl memory p c with
    | some k => (true, k)
    | none => (false, s.kernel fd)

/-- The section of an operation under the mutex of the context, with its call of `epoll_ctl`. -/
def perform (s : EpollWorld) (t : Nat) (memory : Bool) : Option EpollWorld :=
  match s.table.threads t with
  | .holds op p =>
    let ctl := s.epollCtl op.fd memory p (op.epollCtl s.table.contexts p)
    (s.table.perform t ctl.1).map fun table => { s with table }.setKernel op.fd ctl.2
  | _ => none

/-- `epoll_wait` returns at most 64 results; a descriptor on the list that has nothing to return
    any more is taken off it only. -/
def wait (s : EpollWorld) (w : Nat) (fds : List Nat) : Option EpollWorld :=
  if s.results w = [] ∧ fds.Nodup ∧ fds.length ≤ 64 ∧
      ∀ fd ∈ fds, (s.kernel fd).listed = true then
    some { s with
      kernel := fun fd => if fd ∈ fds then { s.kernel fd with listed := false } else s.kernel fd
      results := Function.update s.results w
        ((fds.map fun fd => ((s.kernel fd).data, (s.kernel fd).revents)).filter
          fun r => r.2 ≠ {}) }
  else none

/-- The next turn of the loop over the results (`iomanager.cpp:346-398`). -/
def dispatch (s : EpollWorld) (w : Nat) (memory : Bool) : Option EpollWorld :=
  match s.results w with
  | [] => none
  | (p, ev) :: rest =>
    (s.table.contexts.fdContexts[p]?).bind fun c =>
      let ctl := s.epollCtl c.fd memory p (s.table.contexts.resultCtl p ev)
      (s.table.dispatch p ev ctl.1).map fun table =>
        { s with table, results := Function.update s.results w rest }.setKernel c.fd ctl.2

def step (s : EpollWorld) : EpollAction → Option EpollWorld
  | .openFile fd => if (s.kernel fd).isOpen then none else some (s.setKernel fd { isOpen := true })
  | .close fd => if (s.kernel fd).isOpen then some (s.setKernel fd {}) else none
  | .becomes fd ready =>
    if (s.kernel fd).isOpen then some (s.setKernel fd ((s.kernel fd).becomes ready)) else none
  | .relist fd =>
    if (s.kernel fd).interest.isSome then some (s.setKernel fd { s.kernel fd with listed := true })
    else none
  | .start t op => (s.table.start t op).map fun table => { s with table }
  | .grow t => (s.table.grow t).map fun table => { s with table }
  | .perform t memory => s.perform t memory
  | .wait w fds => s.wait w fds
  | .dispatch w memory => s.dispatch w memory

def initial : EpollWorld := { table := .initial }

end EpollWorld

def epollMachine : Machine EpollWorld EpollAction where
  init s := s = .initial
  step := EpollWorld.step

/-- Events are added on threads that have a scheduler. -/
def TableOp.Scheduled : TableOp → Prop
  | .addEvent _ _ _ scheduler _ => scheduler.isSome = true
  | _ => True

/-- The condition on a step: a descriptor is closed while none of its events is live, events are
    added on threads that have a scheduler, the table does not shrink, and the `epoll_ctl` for a
    result does not fail for want of memory. -/
def EpollGuard (s : EpollWorld) : EpollAction → Prop
  | .close fd => ∀ e, s.table.live fd e = false
  | .start _ op => op.Scheduled
  | .grow t => TableGuard s.table (.grow t)
  | .dispatch _ memory => memory = true
  | _ => True

/-- The events of a descriptor that are live. -/
def FdTable.mask (s : FdTable) (fd : Nat) : EventMask := ⟨s.live fd .read, s.live fd .write⟩

/-- The operation that a thread is in. -/
def TableThread.op : TableThread → Option TableOp
  | .idle => none
  | .growing op | .holds op _ => some op

/-- The address `p` is that of a context for the descriptor. -/
def FdTable.IsFor (s : FdTable) (p fd : Nat) : Prop :=
  ∃ c, s.contexts.fdContexts[p]? = some c ∧ c.fd = fd

namespace EpollWorld

/-- A worker has a result for the event, and will dispatch it. -/
def InHand (s : EpollWorld) (fd : Nat) (e : Event) : Prop :=
  ∃ w p ev, (p, ev) ∈ s.results w ∧ s.table.IsFor p fd ∧ ev.realEvents.has e = true

/-- The epoll instance waits for exactly the live events and refuses no call for an open
    descriptor.  A live event that the descriptor is ready for is noticed: the descriptor is on
    the list, or a worker has a result for the event, with which it schedules the task. -/
structure Sound (s : EpollWorld) : Prop where
  mirrors : ∀ fd, (s.kernel fd).interest = (s.table.mask fd).interest
  granted : ∀ t op p, s.table.threads t = .holds op p → (s.kernel op.fd).isOpen = true →
    (s.epollCtl op.fd true p (op.epollCtl s.table.contexts p)).1 = true
  noticed : ∀ fd e, s.table.live fd e = true → (s.kernel fd).ready.realEvents.has e = true →
    (s.kernel fd).listed = true ∨ s.InHand fd e
  handled : ∀ w p fd ev rest t, s.results w = (p, ev) :: rest → s.table.IsFor p fd →
    s.dispatch w true = some t → ∀ e, s.table.live fd e = true → ev.realEvents.has e = true →
      t.table.live fd e = false ∧ ∃ tasks task,
        t.table.contexts.scheduled = s.table.contexts.scheduled ++ tasks ∧
          s.table.contexts.taskOf p e = some task ∧ task ∈ tasks

/-- A worker has a result for the event, with the address that is the descriptor. -/
def Holding (s : EpollWorld) (fd : Nat) (e : Event) : Prop :=
  ∃ w ev, (fd, ev) ∈ s.results w ∧ ev.realEvents.has e = true

/-- What guarded runs keep. -/
structure Inv (s : EpollWorld) : Prop where
  reach : tableMachine.Reach TableGuard s.table
  contexts : s.table.contexts.Inv
  scheduled : ∀ t op, (s.table.threads t).op = some op → op.Scheduled
  closed : ∀ fd, (s.kernel fd).isOpen = false → s.kernel fd = {}
  mirrors : ∀ fd, (s.kernel fd).interest = (s.table.contexts.events fd).interest
  data : ∀ fd, (s.kernel fd).interest.isSome = true → (s.kernel fd).data = fd
  noticed : ∀ fd e, (s.table.contexts.events fd).has e = true →
    (s.kernel fd).ready.realEvents.has e = true → (s.kernel fd).listed = true ∨ s.Holding fd e

end EpollWorld

/-! ## Masks -/

namespace EventMask

variable {m n : EventMask}

theorem ext_has (h : ∀ e, m.has e = n.has e) : m = n := by
  obtain ⟨r, w⟩ := m
  obtain ⟨r', w'⟩ := n
  have hr := h .read
  have hw := h .write
  simp_all [has]

@[simp] theorem has_diff (m n : EventMask) (e : Event) :
    (m.diff n).has e = (m.has e && !n.has e) := by
  cases e <;> rfl

@[simp] theorem has_inter (m n : EventMask) (e : Event) :
    (m.inter n).has e = (m.has e && n.has e) := by
  cases e <;> rfl

theorem isNone_iff : m.isNone = true ↔ ∀ e, m.has e = false := by
  refine ⟨fun h e => ?_, fun h => ?_⟩
  · cases e <;> simp_all [isNone, has]
  · have hr := h .read
    have hw := h .write
    simp_all [isNone, has]

theorem not_isNone {e : Event} (h : m.has e = true) : m.isNone = false := by
  rw [← Bool.not_eq_true, isNone_iff]
  intro hnone
  rw [hnone e] at h
  cases h

theorem interest_of_isNone (h : m.isNone = true) : m.interest = none := if_pos h

theorem interest_of_has {e : Event} (h : m.has e = true) : m.interest = some m := by
  rw [interest, not_isNone h]
  rfl

end EventMask

/-! ## Calls of `epoll_ctl` -/

/-- The call is the right one where `before` are the events that the epoll instance has. -/
structure CtlCall.Fits (before : EventMask) (c : CtlCall) : Prop where
  adds : c.1 = .add ↔ before.isNone = true
  dels : c.1 = .del ↔ c.2.isNone = true

/-- The events that are registered behind the call. -/
def CtlCall.after (before : EventMask) (ctl : Bool) : Option CtlCall → EventMask
  | none => before
  | some c => if ctl then c.2 else before

theorem CtlCall.fits_leave {before left : EventMask} (h : before.isNone = false) :
    (CtlCall.leave left).Fits before := by
  refine ⟨?_, ?_⟩ <;> unfold leave <;> split <;> simp_all

theorem TableOp.epollCtl_fits {s : IOManager} {p : Nat} {op : TableOp} {c : CtlCall}
    (h : op.epollCtl s p = some c) : c.Fits (s.events p) := by
  cases op with
  | addEvent fd e cb scheduler fiber =>
    simp only [epollCtl] at h
    split at h
    · cases h
    · cases h
      refine ⟨?_, ?_⟩
      · split <;> simp_all
      · have hin : ((s.events p).insert e).isNone = false :=
          EventMask.not_isNone (EventMask.has_insert_self _ e)
        cases (s.events p).isNone <;> simp [hin]
  | delEvent fd e | cancelEvent fd e =>
    simp only [epollCtl] at h
    split at h
    · rename_i hhas
      cases h
      exact CtlCall.fits_leave (EventMask.not_isNone hhas)
    · cases h
  | cancelAll fd =>
    simp only [epollCtl] at h
    split at h
    · cases h
    · cases h
      refine ⟨?_, ?_⟩
      · simp_all
      · simp [EventMask.isNone]

theorem IOManager.resultCtl_fits {s : IOManager} {fd : Nat} {ev : EpollEvents} {c : CtlCall}
    (h : s.resultCtl fd ev = some c) : c.Fits (s.events fd) := by
  unfold resultCtl at h
  split at h
  · cases h
  · rename_i hmeet
    cases h
    refine CtlCall.fits_leave (Bool.eq_false_iff.mpr fun hnone => hmeet ?_)
    rw [EventMask.isNone_iff] at hnone ⊢
    simp [hnone]

namespace KernelFd

variable {k k' : KernelFd} {m before : EventMask} {c : CtlCall} {memory : Bool} {e : Event}
  {p : Nat}

theorem rises_of_has {a b : EpollEvents} (ha : a.realEvents.has e = false)
    (hb : b.realEvents.has e = true) : a.rises b = true := by
  cases e <;> simp_all [EpollEvents.realEvents, EpollEvents.rises, EventMask.has] <;> grind

/-- For an event of its mask `epoll_wait` returns whether the descriptor is ready. -/
theorem has_revents (hk : k.interest = some m) (hm : m.has e = true) :
    k.revents.realEvents.has e = k.ready.realEvents.has e := by
  cases e <;> simp_all [revents, EpollEvents.realEvents, EventMask.has]

/-- The kernel looks at the descriptor again when a mask is set. -/
theorem listed_setInterest (hm : m.has e = true) (hready : k.ready.realEvents.has e = true) :
    (k.setInterest p m).listed = true := by
  have hrevents := has_revents (k := { k with interest := some m, data := p }) rfl hm
  have hrises := rises_of_has (a := {}) (by cases e <;> rfl) (hrevents.trans hready)
  simp [setInterest, hrises]

/-- A right call that succeeds: the descriptor has the events and the context of the call, and is
    on the list if it is ready for one of them. -/
theorem epollCtl_some (hfits : c.Fits before) (h : k.epollCtl memory p c = some k') :
    k'.isOpen = k.isOpen ∧ k'.ready = k.ready ∧ k'.interest = c.2.interest ∧
      (k'.interest.isSome = true → k'.data = p) ∧
      ∀ e, c.2.has e = true → k.ready.realEvents.has e = true → k'.listed = true := by
  obtain ⟨op, left⟩ := c
  have hset : op ≠ .del → (k.setInterest p left).isOpen = k.isOpen ∧
      (k.setInterest p left).ready = k.ready ∧
      (k.setInterest p left).interest = left.interest ∧
      ((k.setInterest p left).interest.isSome = true → (k.setInterest p left).data = p) ∧
      ∀ e, left.has e = true → k.ready.realEvents.has e = true →
        (k.setInterest p left).listed = true := by
    intro hop
    refine ⟨rfl, rfl, ?_, fun _ => rfl, fun e => listed_setInterest⟩
    rw [EventMask.interest, if_neg (hop ∘ hfits.dels.mpr)]
    rfl
  cases op with
  | add | mod =>
    simp only [epollCtl] at h
    split at h
    · cases h
      exact hset (by simp)
    · cases h
  | del =>
    have hnone := hfits.dels.mp rfl
    simp only [epollCtl] at h
    split at h
    · cases h
      refine ⟨rfl, rfl, (EventMask.interest_of_isNone hnone).symm, fun hsome => (by cases hsome),
        fun e he => ?_⟩
      rw [EventMask.isNone_iff.mp hnone e] at he
      cases he
    · cases h

/-- A right call succeeds where there is memory. -/
theorem epollCtl_isSome (hk : k.interest = before.interest) (hfits : c.Fits before)
    (hopen : before.isNone = true → k.isOpen = true) : (k.epollCtl true p c).isSome = true := by
  obtain ⟨op, left⟩ := c
  have hadds := hfits.adds
  cases hnone : before.isNone <;> cases op <;>
    simp_all [epollCtl, EventMask.interest]

end KernelFd

/-! ## What the operations register -/

namespace IOManager

variable {s t : IOManager} {p : Nat} {ctl : Bool}

theorem registered_eq (s : IOManager) (p : Nat) (e : Event) :
    s.registered p e = (s.events p).has e := by
  unfold registered events
  cases s.fdContexts[p]? with
  | none => cases e <;> rfl
  | some c => simp

theorem events_eq_update {m : EventMask}
    (h : ∀ q e, t.registered q e = if q = p then m.has e else s.registered q e) :
    t.events = Function.update s.events p m := by
  funext q
  refine EventMask.ext_has fun e => ?_
  rw [← registered_eq, h]
  by_cases hq : q = p
  · subst hq
    simp
  · simp [hq, registered_eq]

theorem events_of_some {c : FdContext} (hc : s.fdContexts[p]? = some c) :
    s.events p = c.events := by
  rw [events, hc]
  rfl

theorem has_events_of_none (hc : s.fdContexts[p]? = none) (e : Event) :
    (s.events p).has e = false := by
  rw [events, hc]
  cases e <;> rfl

/-- Triggering events takes them, and nothing else, out of the mask. -/
theorem events_triggerAt {c : FdContext} {es : List Event} {m : EventMask}
    (hc : s.fdContexts[p]? = some c) (h : s.triggerAt p c es = .ok t)
    (hm : ∀ e, m.has e = (c.events.has e && !es.contains e)) :
    t.fdContexts.length = s.fdContexts.length ∧ t.events = Function.update s.events p m := by
  obtain ⟨hsame, hreg⟩ := registered_triggerAt hc h
  refine ⟨hsame.length, events_eq_update fun q e => ?_⟩
  rw [hreg, hm]
  by_cases hq : q = p
  · subst hq
    simp [registered_eq, events_of_some hc]
  · simp [hq]

/-- A call of `epoll_ctl` that is not made, or fails, leaves the mask as it is. -/
theorem after_unchanged {m : EventMask} {call : Option CtlCall} (h : call = none ∨ ctl = false) :
    CtlCall.after m ctl call = m := by
  rcases h with rfl | rfl
  · rfl
  · cases call <;> rfl

theorem events_kept {call : Option CtlCall} (h : call = none ∨ ctl = false) :
    s.fdContexts.length = s.fdContexts.length ∧
      s.events = Function.update s.events p (CtlCall.after (s.events p) ctl call) := by
  rw [after_unchanged h, Function.update_eq_self]
  exact ⟨rfl, rfl⟩

theorem events_addEvent (hsize : 2 ≤ s.fdContexts.length) {e : Event} {cb scheduler : Option Nat}
    {fiber : Nat} {r : Int} (h : s.addEvent p e cb scheduler fiber ctl = .ok (t, r)) :
    2 ≤ t.fdContexts.length ∧ t.events = Function.update s.events p (CtlCall.after (s.events p)
      ctl (TableOp.epollCtl s p (.addEvent fd e cb scheduler fiber))) := by
  have hkept := unchanged_ensureContext hsize p
  obtain ⟨hlt, hsize'⟩ := lt_ensureContext hsize p
  have hevents : (s.ensureContext p).events = s.events := by
    funext q
    refine EventMask.ext_has fun f => ?_
    rw [← registered_eq, ← registered_eq, hkept.registered]
  unfold addEvent at h
  generalize s.ensureContext p = u at hlt hsize' hevents h
  obtain ⟨c, hc⟩ : ∃ c, u.fdContexts[p]? = some c := ⟨_, List.getElem?_eq_getElem hlt⟩
  have hcev : c.events = s.events p := by rw [← hevents, events_of_some hc]
  simp only [hc] at h
  split at h
  · cases h
  · rename_i hnew
    rw [hcev] at hnew
    split at h
    · rename_i hctl
      cases h
      rw [after_unchanged (.inr (by simpa using hctl)), Function.update_eq_self, hevents]
      exact ⟨hsize', rfl⟩
    · split at h
      · cases h
      · rename_i hctl _
        cases h
        refine ⟨by simpa using hsize', ?_⟩
        rw [← hevents]
        refine events_eq_update fun q f => ?_
        rw [registered_set hc rfl, FdContext.setContext_events, hcev]
        simp_all [TableOp.epollCtl, CtlCall.after]

theorem events_delEvent {e : Event} (h : (s.delEvent p e ctl).1 = t) :
    t.fdContexts.length = s.fdContexts.length ∧ t.events = Function.update s.events p
      (CtlCall.after (s.events p) ctl (TableOp.epollCtl s p (.delEvent fd e))) := by
  unfold delEvent at h
  split at h
  · next hc =>
    cases h
    exact events_kept (.inl (by simp [TableOp.epollCtl, has_events_of_none hc]))
  · next c hc =>
    split at h
    · next hskip =>
      cases h
      rcases Bool.or_eq_true_iff.mp hskip with hskip | hskip
      · exact events_kept (.inl (by simp_all [TableOp.epollCtl, events_of_some hc]))
      · exact events_kept (.inr (by simpa using hskip))
    · next hmeet =>
      cases h
      simp only [Bool.or_eq_true, Bool.not_eq_true', not_or, Bool.not_eq_false] at hmeet
      refine ⟨List.length_set, events_eq_update fun q f => ?_⟩
      rw [registered_set hc rfl]
      simp [TableOp.epollCtl, events_of_some hc, hmeet, CtlCall.after, CtlCall.leave,
        FdContext.resetContext]

theorem events_cancelEvent {e : Event} {r : Bool} (h : s.cancelEvent p e ctl = .ok (t, r)) :
    t.fdContexts.length = s.fdContexts.length ∧ t.events = Function.update s.events p
      (CtlCall.after (s.events p) ctl (TableOp.epollCtl s p (.cancelEvent fd e))) := by
  unfold cancelEvent at h
  split at h
  · next hc =>
    cases h
    exact events_kept (.inl (by simp [TableOp.epollCtl, has_events_of_none hc]))
  · next c hc =>
    split at h
    · next hskip =>
      cases h
      rcases Bool.or_eq_true_iff.mp hskip with hskip | hskip
      · exact events_kept (.inl (by simp_all [TableOp.epollCtl, events_of_some hc]))
      · exact events_kept (.inr (by simpa using hskip))
    · next hmeet =>
      obtain ⟨u, htrig, heq⟩ := exists_of_map_eq_ok h
      cases heq
      simp only [Bool.or_eq_true, Bool.not_eq_true', not_or, Bool.not_eq_false] at hmeet
      obtain ⟨hlength, hevents⟩ := events_triggerAt (m := c.events.erase e) hc htrig fun f => by
        by_cases hf : f = e
        · subst hf
          simp
        · simp [EventMask.has_erase_ne _ hf, hf]
      refine ⟨hlength, hevents.trans ?_⟩
      simp [TableOp.epollCtl, events_of_some hc, hmeet, CtlCall.after, CtlCall.leave]

theorem events_cancelAll {r : Bool} (h : s.cancelAll p ctl = .ok (t, r)) :
    t.fdContexts.length = s.fdContexts.length ∧ t.events = Function.update s.events p
      (CtlCall.after (s.events p) ctl (TableOp.epollCtl s p (.cancelAll fd))) := by
  unfold cancelAll at h
  split at h
  · next hc =>
    cases h
    have hnone : (s.events p).isNone = true := EventMask.isNone_iff.mpr (has_events_of_none hc)
    exact events_kept (.inl (by simp [TableOp.epollCtl, hnone]))
  · next c hc =>
    split at h
    · next hskip =>
      cases h
      rcases Bool.or_eq_true_iff.mp hskip with hskip | hskip
      · exact events_kept (.inl (by simp [TableOp.epollCtl, events_of_some hc, hskip]))
      · exact events_kept (.inr (by simpa using hskip))
    · next hmeet =>
      obtain ⟨u, htrig, heq⟩ := exists_of_map_eq_ok h
      cases heq
      simp only [Bool.or_eq_true, Bool.not_eq_true', not_or, Bool.not_eq_true] at hmeet
      obtain ⟨hlength, hevents⟩ := events_triggerAt (m := {}) hc htrig fun f => by
        have hempty : ({} : EventMask).has f = false := by cases f <;> rfl
        cases hf : c.events.has f <;> simp [hempty, EventMask.mem_toList, hf]
      refine ⟨hlength, hevents.trans ?_⟩
      simp_all [TableOp.epollCtl, events_of_some hc, CtlCall.after]

/-- The operations register what their call of `epoll_ctl` says, if it succeeds. -/
theorem events_op (hsize : 2 ≤ s.fdContexts.length) {op : TableOp}
    (h : s.apply (op.action p ctl) = .ok t) :
    2 ≤ t.fdContexts.length ∧ t.events = Function.update s.events p
      (CtlCall.after (s.events p) ctl (op.epollCtl s p)) := by
  cases op with
  | addEvent fd e cb scheduler fiber =>
    obtain ⟨⟨u, r⟩, hadd, rfl⟩ := exists_of_map_eq_ok h
    exact events_addEvent hsize hadd
  | delEvent fd e =>
    obtain ⟨hlength, hevents⟩ := events_delEvent (Except.ok.inj h)
    exact ⟨hlength ▸ hsize, hevents⟩
  | cancelEvent fd e =>
    obtain ⟨⟨u, r⟩, hcancel, rfl⟩ := exists_of_map_eq_ok h
    obtain ⟨hlength, hevents⟩ := events_cancelEvent hcancel
    exact ⟨hlength ▸ hsize, hevents⟩
  | cancelAll fd =>
    obtain ⟨⟨u, r⟩, hcancel, rfl⟩ := exists_of_map_eq_ok h
    obtain ⟨hlength, hevents⟩ := events_cancelAll hcancel
    exact ⟨hlength ▸ hsize, hevents⟩

/-- So does a turn of the loop over the results. -/
theorem events_dispatch {ev : EpollEvents} (h : s.dispatch p ev ctl = .ok t) :
    t.fdContexts.length = s.fdContexts.length ∧ t.events = Function.update s.events p
      (CtlCall.after (s.events p) ctl (s.resultCtl p ev)) := by
  unfold dispatch at h
  split at h
  · next hc =>
    cases h
    have hnone : ((s.events p).inter ev.realEvents).isNone = true :=
      EventMask.isNone_iff.mpr (by simp [has_events_of_none hc])
    exact events_kept (.inl (by simp [resultCtl, hnone]))
  · next c hc =>
    split at h
    · next hskip =>
      cases h
      rcases Bool.or_eq_true_iff.mp hskip with hskip | hskip
      · exact events_kept (.inl (by simp [resultCtl, events_of_some hc, hskip]))
      · exact events_kept (.inr (by simpa using hskip))
    · next hmeet =>
      simp only [Bool.or_eq_true, Bool.not_eq_true', not_or, Bool.not_eq_true] at hmeet
      obtain ⟨hlength, hevents⟩ :=
          events_triggerAt (m := c.events.diff ev.realEvents) hc h fun f => by
        cases hf : ev.realEvents.has f <;> simp [EventMask.mem_toList, hf]
      refine ⟨hlength, hevents.trans ?_⟩
      simp_all [resultCtl, events_of_some hc, CtlCall.after, CtlCall.leave]

end IOManager

/-! ## Steps -/

namespace EpollWorld

variable {s t : EpollWorld} {fd p : Nat} {e : Event}

/-- A call of `epoll_ctl` is not made or fails, and changes nothing, or it succeeds. -/
theorem epollCtl_cases (s : EpollWorld) (fd : Nat) (memory : Bool) (p : Nat)
    (call : Option CtlCall) :
    (s.epollCtl fd memory p call).2 = s.kernel fd ∧
      (call = none ∨ (s.epollCtl fd memory p call).1 = false) ∨
    ∃ c k, call = some c ∧ (s.kernel fd).epollCtl memory p c = some k ∧
      s.epollCtl fd memory p call = (true, k) := by
  cases call with
  | none => exact .inl ⟨rfl, .inl rfl⟩
  | some c =>
    cases hk : (s.kernel fd).epollCtl memory p c with
    | none => exact .inl (by simp [epollCtl, hk])
    | some k => exact .inr ⟨c, k, rfl, hk, by simp [epollCtl, hk]⟩

/-- A step of the table that leaves the masks as they are. -/
theorem Inv.setTable (h : s.Inv) {table : FdTable} (hreach : tableMachine.Reach TableGuard table)
    (hcontexts : table.contexts.Inv)
    (hscheduled : ∀ w op, (table.threads w).op = some op → op.Scheduled)
    (hevents : table.contexts.events = s.table.contexts.events) :
    ({ s with table } : EpollWorld).Inv where
  reach := hreach
  contexts := hcontexts
  scheduled := hscheduled
  closed := h.closed
  mirrors q := by
    dsimp only
    rw [hevents]
    exact h.mirrors q
  data := h.data
  noticed q f hreg := by
    dsimp only at hreg
    rw [hevents] at hreg
    exact h.noticed q f hreg

/-- A right call of `epoll_ctl` keeps the masks alike, and lists the descriptor if that is due;
    for other events the results stay in hand. -/
theorem Inv.afterCtl (h : s.Inv) {memory : Bool} {call : Option CtlCall}
    (hfits : ∀ c, call = some c → c.Fits (s.table.contexts.events fd))
    (hreach : tableMachine.Reach TableGuard t.table) (hcontexts : t.table.contexts.Inv)
    (hscheduled : ∀ w op, (t.table.threads w).op = some op → op.Scheduled)
    (hkernel : t.kernel = Function.update s.kernel fd (s.epollCtl fd memory fd call).2)
    (hevents : t.table.contexts.events = Function.update s.table.contexts.events fd
      (CtlCall.after (s.table.contexts.events fd) (s.epollCtl fd memory fd call).1 call))
    (hhand : ∀ q e, (s.table.contexts.events q).has e = true → s.Holding q e →
      t.Holding q e ∨ q = fd ∧ call ≠ none ∧ (s.epollCtl fd memory fd call).1 = true) :
    t.Inv := by
  rcases s.epollCtl_cases fd memory fd call with ⟨hk, hcall⟩ | ⟨c, k, rfl, hk, hctl⟩
  · rw [hk, Function.update_eq_self] at hkernel
    rw [IOManager.after_unchanged hcall, Function.update_eq_self] at hevents
    refine ⟨hreach, hcontexts, hscheduled, by rw [hkernel]; exact h.closed, ?_,
      by rw [hkernel]; exact h.data, fun q f hreg hready => ?_⟩
    · rw [hkernel, hevents]
      exact h.mirrors
    · rw [hevents] at hreg
      rw [hkernel] at hready ⊢
      refine (h.noticed q f hreg hready).imp_right fun hin => ?_
      rcases hhand q f hreg hin with hin | ⟨-, hsome, htrue⟩
      · exact hin
      · rcases hcall with hcall | hcall
        · exact absurd hcall hsome
        · rw [hcall] at htrue
          cases htrue
  · rw [hctl] at hkernel hevents
    obtain ⟨hopen, hready', hinterest, hdata, hlisted⟩ := KernelFd.epollCtl_some (hfits c rfl) hk
    refine ⟨hreach, hcontexts, hscheduled, fun q hclosed => ?_, fun q => ?_,
      fun q hsome => ?_, fun q f hreg hready => ?_⟩ <;> by_cases hq : q = fd
    · subst hq
      rw [hkernel, Function.update_self, hopen] at hclosed
      obtain ⟨op, m⟩ := c
      rw [h.closed q hclosed] at hk
      cases op <;> simp [KernelFd.epollCtl] at hk
    · rw [hkernel, Function.update_of_ne hq] at hclosed ⊢
      exact h.closed q hclosed
    · subst hq
      simpa [hkernel, hevents, CtlCall.after] using hinterest
    · simpa [hkernel, hevents, hq] using h.mirrors q
    · subst hq
      rw [hkernel, Function.update_self] at hsome ⊢
      exact hdata hsome
    · rw [hkernel, Function.update_of_ne hq] at hsome ⊢
      exact h.data q hsome
    · subst hq
      simp only [hkernel, hevents, Function.update_self, CtlCall.after, if_true, hready'] at *
      exact .inl (hlisted f hreg hready)
    · simp only [hkernel, hevents, Function.update_of_ne hq] at *
      refine (h.noticed q f hreg hready).imp_right fun hin => ?_
      exact (hhand q f hreg hin).resolve_right fun hfd => hq hfd.1

theorem ok_of_toOption {ε α : Type} {x : Except ε α} {a : α} (h : x.toOption = some a) :
    x = .ok a := by
  cases x with
  | error err => cases h
  | ok b => rw [Option.some.inj h]

theorem Inv.table (h : s.Inv) : s.table.Inv := .of_reach h.reach

theorem Inv.scheduled_update (h : s.Inv) {x : TableThread}
    (hx : ∀ op, x.op = some op → op.Scheduled) (w v : Nat) (op : TableOp)
    (hv : (Function.update s.table.threads w x v).op = some op) : op.Scheduled := by
  rw [Function.update_apply] at hv
  split at hv
  · exact hx op hv
  · exact h.scheduled v op hv

theorem Inv.start (h : s.Inv) {w : Nat} {op : TableOp} (hg : op.Scheduled)
    (hs : s.step (.start w op) = some t) : t.Inv := by
  obtain ⟨table, hstart, rfl⟩ := Option.map_eq_some_iff.mp hs
  have hreach : tableMachine.Reach TableGuard table :=
    .step (a := .start w op) h.reach trivial hstart
  unfold FdTable.start at hstart
  split at hstart
  · cases hstart
    refine h.setTable hreach h.contexts (h.scheduled_update (fun op' hop => ?_) w) rfl
    split at hop
    · cases hop
      exact hg
    · split at hop <;> cases hop
      exact hg
  · cases hstart

/-- A table that grows gets contexts without events. -/
theorem Inv.grow (h : s.Inv) {w : Nat} (hg : TableGuard s.table (.grow w))
    (hs : s.step (.grow w) = some t) : t.Inv := by
  obtain ⟨table, hgrow, rfl⟩ := Option.map_eq_some_iff.mp hs
  have hreach : tableMachine.Reach TableGuard table := .step (a := .grow w) h.reach hg hgrow
  unfold FdTable.grow at hgrow
  split at hgrow
  · next op hgrowing =>
    obtain ⟨hsize, hcontexts⟩ := h.table.contexts_contextResize (hg op hgrowing)
    obtain ⟨p, -, rfl⟩ := Option.map_eq_some_iff.mp hgrow
    have hop := h.scheduled w op (by rw [hgrowing]; rfl)
    refine h.setTable hreach (hcontexts ▸ h.contexts.contextResize hsize)
      (h.scheduled_update (fun op' hop' => ?_) w) (funext fun q => EventMask.ext_has fun f => ?_)
    · cases hop'
      exact hop
    · rw [← IOManager.registered_eq, ← IOManager.registered_eq]
      change (s.table.contextResize _).contexts.registered q f = _
      rw [hcontexts, (IOManager.unchanged_contextResize hsize).registered]
  · cases hgrow

theorem Inv.perform (h : s.Inv) {w : Nat} {memory : Bool} (hs : s.perform w memory = some t) :
    t.Inv := by
  unfold EpollWorld.perform at hs
  split at hs
  · next op p hholds =>
    obtain ⟨rfl, -⟩ := h.table.holds w op p hholds
    obtain ⟨table, hperform, rfl⟩ := Option.map_eq_some_iff.mp hs
    generalize hctl : (s.epollCtl op.fd memory op.fd (op.epollCtl s.table.contexts op.fd)).1 = ctl
      at hperform
    have hreach : tableMachine.Reach TableGuard table :=
      .step (a := .perform w ctl) h.reach trivial hperform
    simp only [FdTable.perform, hholds] at hperform
    obtain ⟨contexts, hrun, rfl⟩ := Option.map_eq_some_iff.mp hperform
    replace hrun := ok_of_toOption hrun
    obtain ⟨-, hevents⟩ := IOManager.events_op h.table.size hrun
    have hguard : IOGuard s.table.contexts (op.action op.fd ctl) := by
      have hop := h.scheduled w op (by rw [hholds]; rfl)
      cases op with
      | addEvent fd e cb scheduler fiber => exact hop
      | delEvent fd e | cancelEvent fd e | cancelAll fd => trivial
    exact h.afterCtl (fun c hc => TableOp.epollCtl_fits hc) hreach
      (h.contexts.step hguard (congrArg Except.toOption hrun))
      (h.scheduled_update (fun op' hop => by cases hop) w) rfl (hctl ▸ hevents)
      fun q f _ hin => .inl hin
  · cases hs

theorem Inv.granted (h : s.Inv) {call : Option CtlCall}
    (hfits : ∀ c, call = some c → c.Fits (s.table.contexts.events fd))
    (hopen : (s.table.contexts.events fd).isNone = true → (s.kernel fd).isOpen = true) :
    (s.epollCtl fd true p call).1 = true := by
  rcases s.epollCtl_cases fd true p call with ⟨-, hcall⟩ | ⟨c, k, -, -, hctl⟩
  · cases call with
    | none => rfl
    | some c =>
      obtain ⟨k, hk⟩ := Option.isSome_iff_exists.mp
        (KernelFd.epollCtl_isSome (p := p) (h.mirrors fd) (hfits c rfl) hopen)
      simp [epollCtl, hk]
  · rw [hctl]

/-- What a turn of the loop over the results does to the table. -/
theorem Inv.dispatch_cases (h : s.Inv) {w : Nat} {memory : Bool}
    (hs : s.dispatch w memory = some t) :
    ∃ fd ev rest contexts live, s.results w = (fd, ev) :: rest ∧
      s.table.contexts.dispatch fd ev
        (s.epollCtl fd memory fd (s.table.contexts.resultCtl fd ev)).1 = .ok contexts ∧
      tableMachine.Reach TableGuard { s.table with contexts, live } ∧
      t = ({ s with
        table := { s.table with contexts, live }
        results := Function.update s.results w rest } : EpollWorld).setKernel fd
          (s.epollCtl fd memory fd (s.table.contexts.resultCtl fd ev)).2 := by
  unfold EpollWorld.dispatch at hs
  split at hs
  · cases hs
  · next p ev rest hres =>
    obtain ⟨c, hc, hs⟩ := Option.bind_eq_some_iff.mp hs
    obtain rfl := h.table.fd_of_getElem? hc
    obtain ⟨table, hdispatch, rfl⟩ := Option.map_eq_some_iff.mp hs
    generalize hctl : (s.epollCtl c.fd memory c.fd (s.table.contexts.resultCtl c.fd ev)).1 = ctl
      at hdispatch
    have hreach : tableMachine.Reach TableGuard table :=
      .step (a := .dispatch c.fd ev ctl) h.reach trivial hdispatch
    simp only [FdTable.dispatch, hc] at hdispatch
    obtain ⟨contexts, hrun, rfl⟩ := Option.map_eq_some_iff.mp hdispatch
    exact ⟨c.fd, ev, rest, contexts, _, hres, hctl ▸ ok_of_toOption hrun, hreach, rfl⟩

/-- The result that is dispatched is the only one that leaves a hand.  It leaves no event that it
    was for: where the loop skips it there is none, and elsewhere the descriptor has a new mask. -/
theorem Inv.dispatch (h : s.Inv) {w : Nat} (hs : s.dispatch w true = some t) : t.Inv := by
  obtain ⟨fd, ev, rest, contexts, live, hres, hrun, hreach, rfl⟩ := h.dispatch_cases hs
  obtain ⟨-, hevents⟩ := IOManager.events_dispatch hrun
  have hfits : ∀ c, s.table.contexts.resultCtl fd ev = some c →
      c.Fits (s.table.contexts.events fd) := fun c => IOManager.resultCtl_fits
  have hcontexts : contexts.Inv := h.contexts.step (a := .dispatch fd ev _)
    (IOManager.resultOk_of_dispatch_ok hrun) (congrArg Except.toOption hrun)
  refine h.afterCtl hfits hreach hcontexts h.scheduled rfl hevents fun q f hreg hin => ?_
  obtain ⟨v, ev', hmem, hf⟩ := hin
  by_cases hv : v = w
  · subst hv
    rw [hres] at hmem
    rcases List.mem_cons.mp hmem with heq | hmem
    · cases heq
      have hmeet : ((s.table.contexts.events fd).inter ev.realEvents).isNone = false :=
        EventMask.not_isNone (e := f) (by simp [hreg, hf])
      have hcall : s.table.contexts.resultCtl fd ev ≠ none := by
        simp [IOManager.resultCtl, hmeet]
      refine .inr ⟨rfl, hcall, h.granted hfits fun hnone => ?_⟩
      rw [EventMask.not_isNone hreg] at hnone
      cases hnone
    · exact .inl ⟨v, ev', by simpa [setKernel] using hmem, hf⟩
  · exact .inl ⟨v, ev', by simpa [setKernel, hv] using hmem, hf⟩

/-- A change of the kernel's side of one descriptor. -/
theorem Inv.setKernel (h : s.Inv) {k : KernelFd} (hclosed : k.isOpen = false → k = {})
    (hinterest : k.interest = (s.kernel fd).interest)
    (hdata : k.interest.isSome = true → k.data = (s.kernel fd).data)
    (hnoticed : ∀ e, (s.table.contexts.events fd).has e = true →
      k.ready.realEvents.has e = true → k.listed = true ∨ s.Holding fd e) :
    (s.setKernel fd k).Inv := by
  have hkernel : ∀ q, (s.setKernel fd k).kernel q = if q = fd then k else s.kernel q :=
    fun q => Function.update_apply _ _ _ _
  refine ⟨h.reach, h.contexts, h.scheduled, fun q hq => ?_, fun q => ?_, fun q hsome => ?_,
    fun q e hreg hready => ?_⟩
  · rw [hkernel] at hq ⊢
    split at hq
    · next heq => rw [if_pos heq, hclosed hq]
    · next hne => rw [if_neg hne, h.closed q hq]
  · rw [hkernel]
    split
    · next heq => rw [heq, hinterest, h.mirrors]; rfl
    · exact h.mirrors q
  · rw [hkernel] at hsome ⊢
    split at hsome
    · next heq =>
      rw [if_pos heq, hdata hsome, heq]
      exact h.data fd (hinterest ▸ hsome)
    · next hne =>
      rw [if_neg hne]
      exact h.data q hsome
  · rw [hkernel] at hready ⊢
    split at hready
    · next heq =>
      subst heq
      rw [if_pos rfl]
      exact hnoticed e hreg hready
    · next hne =>
      rw [if_neg hne]
      exact h.noticed q e hreg hready

theorem Inv.wait (h : s.Inv) {w : Nat} {fds : List Nat} (hs : s.wait w fds = some t) : t.Inv := by
  unfold EpollWorld.wait at hs
  split at hs
  · next hfree =>
    obtain ⟨hnone, -, -, hlisted⟩ := hfree
    obtain rfl := Option.some.inj hs
    refine ⟨h.reach, h.contexts, h.scheduled, fun q hclosed => ?_, fun q => ?_,
      fun q hsome => ?_, fun q e hreg hready => ?_⟩
    · have hnot : q ∉ fds := fun hq => by
        simp only [if_pos hq] at hclosed
        have hempty := hlisted q hq
        rw [h.closed q hclosed] at hempty
        cases hempty
      simp only [if_neg hnot] at hclosed ⊢
      exact h.closed q hclosed
    · refine Eq.trans ?_ (h.mirrors q)
      dsimp only
      split <;> rfl
    · dsimp only at hsome ⊢
      by_cases hq : q ∈ fds
      · rw [if_pos hq] at hsome ⊢
        exact h.data q hsome
      · rw [if_neg hq] at hsome ⊢
        exact h.data q hsome
    · dsimp only at hready ⊢
      by_cases hq : q ∈ fds
      · rw [if_pos hq] at hready
        have hinterest := (h.mirrors q).trans (EventMask.interest_of_has hreg)
        have hrevents : (s.kernel q).revents.realEvents.has e = true := by
          rw [KernelFd.has_revents hinterest hreg]
          exact hready
        refine .inr ⟨w, (s.kernel q).revents, ?_, hrevents⟩
        dsimp only
        rw [Function.update_self]
        refine List.mem_filter.mpr ⟨?_, decide_eq_true fun hnil => ?_⟩
        · refine List.mem_map.mpr ⟨q, hq, ?_⟩
          rw [h.data q (by rw [hinterest]; rfl)]
        · have hempty : (s.kernel q).revents = {} := hnil
          rw [hempty] at hrevents
          cases e <;> cases hrevents
      · rw [if_neg hq] at hready ⊢
        refine (h.noticed q e hreg hready).imp_right fun hin => ?_
        obtain ⟨v, ev, hmem, he⟩ := hin
        have hv : v ≠ w := by
          rintro rfl
          rw [hnone] at hmem
          cases hmem
        refine ⟨v, ev, ?_, he⟩
        dsimp only
        rwa [Function.update_of_ne hv]
  · cases hs

theorem Inv.initial : EpollWorld.initial.Inv where
  reach := .init rfl
  contexts := IOManager.Inv.initial
  scheduled _ _ h := by cases h
  closed _ _ := rfl
  mirrors fd := by
    have hunchanged := IOManager.unchanged_contextResize (s := {}) (Nat.zero_le 32)
    refine (EventMask.interest_of_isNone (EventMask.isNone_iff.mpr fun e => ?_)).symm
    rw [← IOManager.registered_eq]
    exact hunchanged.registered fd e
  data _ h := by cases h
  noticed fd e _ hready := by cases e <;> cases hready

/-- The live events of a descriptor are those registered at its address. -/
theorem Inv.mask_eq (h : s.Inv) (fd : Nat) : s.table.mask fd = s.table.contexts.events fd := by
  refine EventMask.ext_has fun e => ?_
  rw [← IOManager.registered_eq, ← h.table.live]
  cases e <;> rfl

theorem Inv.has_of_live (h : s.Inv) (hlive : s.table.live fd e = true) :
    (s.table.contexts.events fd).has e = true := by
  rw [← IOManager.registered_eq, ← h.table.live, hlive]

/-- A live event that a descriptor becomes ready for puts it on the list. -/
theorem Inv.becomes (h : s.Inv) {ready : EpollEvents} (hopen : (s.kernel fd).isOpen = true) :
    (s.setKernel fd ((s.kernel fd).becomes ready)).Inv := by
  refine h.setKernel (fun hclosed => ?_) rfl (fun _ => rfl) fun e hreg hready => ?_
  · simp [KernelFd.becomes, hopen] at hclosed
  · cases hbefore : (s.kernel fd).ready.realEvents.has e with
    | true =>
      refine (h.noticed fd e hreg hbefore).imp_left fun hlisted => ?_
      simp [KernelFd.becomes, hlisted]
    | false =>
      -- The event is new, and the epoll instance waits for it.
      have hinterest := (h.mirrors fd).trans (EventMask.interest_of_has hreg)
      have hrises := KernelFd.rises_of_has
        ((KernelFd.has_revents hinterest hreg).trans hbefore)
        ((KernelFd.has_revents (k := { s.kernel fd with ready := ready }) hinterest hreg).trans
          hready)
      exact .inl (by simp [KernelFd.becomes, hrises])

/-- One guarded step keeps the invariant. -/
theorem Inv.step (h : s.Inv) {a : EpollAction} (hg : EpollGuard s a) (hs : s.step a = some t) :
    t.Inv := by
  cases a with
  | openFile fd =>
    simp only [EpollWorld.step] at hs
    split at hs
    · cases hs
    · next hopen =>
      cases hs
      have hempty := h.closed fd (by simpa using hopen)
      refine h.setKernel (by simp) (by rw [hempty]) (by simp) fun e _ hready => ?_
      cases e <;> cases hready
  | close fd =>
    simp only [EpollWorld.step] at hs
    split at hs
    · cases hs
      refine h.setKernel (fun _ => rfl) ?_ (by simp) fun e _ hready => ?_
      · rw [h.mirrors, EventMask.interest_of_isNone]
        rw [← h.mask_eq, EventMask.isNone_iff]
        intro e
        cases e <;> exact hg _
      · cases e <;> cases hready
    · cases hs
  | becomes fd ready =>
    simp only [EpollWorld.step] at hs
    split at hs
    · next hopen =>
      cases hs
      exact h.becomes hopen
    · cases hs
  | relist fd =>
    simp only [EpollWorld.step] at hs
    split at hs
    · next hsome =>
      cases hs
      refine h.setKernel (fun hclosed => ?_) rfl (fun _ => rfl) fun _ _ _ => .inl rfl
      rw [h.closed fd hclosed] at hsome
      cases hsome
    · cases hs
  | start w op => exact h.start hg hs
  | grow w => exact h.grow hg hs
  | perform w memory => exact h.perform hs
  | wait w fds => exact h.wait hs
  | dispatch w memory =>
    cases hg
    exact h.dispatch hs

theorem Inv.of_reach (h : epollMachine.Reach EpollGuard s) : s.Inv :=
  h.invariant (fun _ hs => hs ▸ Inv.initial) fun _ _ _ hs hg hstep => hs.step hg hstep

/-- The task of an event that a result is for is scheduled when the result is dispatched. -/
theorem Inv.handled (h : s.Inv) {w : Nat} {ev : EpollEvents} {rest : List (Nat × EpollEvents)}
    (hres : s.results w = (fd, ev) :: rest) (hs : s.dispatch w true = some t)
    (hlive : s.table.live fd e = true) (hev : ev.realEvents.has e = true) :
    t.table.live fd e = false ∧ ∃ tasks task,
      t.table.contexts.scheduled = s.table.contexts.scheduled ++ tasks ∧
        s.table.contexts.taskOf fd e = some task ∧ task ∈ tasks := by
  have hhas := h.has_of_live hlive
  obtain ⟨fd', ev', rest', contexts, live, hres', hrun, hreach, rfl⟩ := h.dispatch_cases hs
  rw [hres] at hres'
  cases hres'
  have hctl : (s.epollCtl fd true fd (s.table.contexts.resultCtl fd ev)).1 = true := by
    refine h.granted (fun _ => IOManager.resultCtl_fits) fun hnone => ?_
    rw [EventMask.not_isNone hhas] at hnone
    cases hnone
  rw [hctl] at hrun
  obtain ⟨contexts', tasks, hrun', -, hscheduled, htasks, hregistered⟩ :=
    h.contexts.dispatch (IOManager.resultOk_of_dispatch_ok hrun)
  obtain rfl : contexts = contexts' := by
    rw [hrun] at hrun'
    exact Except.ok.inj hrun'
  have hfires : e ∈ s.table.contexts.firing fd ev true := by
    unfold IOManager.firing
    cases hc : s.table.contexts.fdContexts[fd]? with
    | none =>
      rw [IOManager.has_events_of_none hc] at hhas
      cases hhas
    | some c =>
      rw [IOManager.events_of_some hc] at hhas
      simp [EventMask.mem_toList, hhas, hev]
  refine ⟨?_, tasks, ?_⟩
  · refine ((FdTable.Inv.of_reach hreach).live fd e).trans ?_
    simp [hregistered, hfires]
  · obtain ⟨task, hmem, htask⟩ := List.mem_map.mp (htasks ▸ List.mem_map_of_mem hfires)
    exact ⟨task, hscheduled, htask.symm, hmem⟩

theorem Inv.sound (h : s.Inv) : s.Sound where
  mirrors fd := by rw [h.mask_eq, h.mirrors]
  granted w op p hw hopen := by
    obtain ⟨rfl, -⟩ := h.table.holds w op p hw
    exact h.granted (fun _ hc => TableOp.epollCtl_fits hc) fun _ => hopen
  noticed fd e hlive hready := by
    refine (h.noticed fd e (h.has_of_live hlive) hready).imp_right fun hin => ?_
    obtain ⟨w, ev, hmem, hev⟩ := hin
    obtain ⟨c, hc⟩ : ∃ c, s.table.contexts.fdContexts[fd]? = some c :=
      ⟨_, List.getElem?_eq_getElem (h.table.lt_of_live hlive)⟩
    exact ⟨w, fd, ev, hmem, ⟨c, hc, h.table.fd_of_getElem? hc⟩, hev⟩
  handled w p fd ev rest t hres hfor hs e hlive hev := by
    obtain ⟨c, hc, rfl⟩ := hfor
    obtain rfl := h.table.fd_of_getElem? hc
    exact h.handled hres hs hlive hev

/-- The state behind a run from the start. -/
def after (as : List EpollAction) : EpollWorld := (epollMachine.run .initial as).getD .initial

end EpollWorld

/-- In every run whose steps meet the guard the table goes through a run of its own, and the epoll
    instance is one with it.  So no event is lost: while a fiber or a callback waits for an event
    that its descriptor is ready for, an `epoll_wait` will return it or a worker has it in hand. -/
theorem epoll_sound {s : EpollWorld} (h : epollMachine.Reach EpollGuard s) :
    tableMachine.Reach TableGuard s.table ∧ s.Sound :=
  ⟨(EpollWorld.Inv.of_reach h).reach, (EpollWorld.Inv.of_reach h).sound⟩

/-- A reader waits on a socket that lies beyond the table and is always writable.  Its data comes;
    while the worker 0 has the result in hand, the same descriptor is also waited for to be
    written. -/
def addedWhileInHand : List EpollAction :=
  [.openFile 40, .becomes 40 { epollOut := true },
    .start 0 (.addEvent 40 .read none (some 0) 1), .grow 0, .perform 0 true,
    .becomes 40 { epollIn := true, epollOut := true }, .wait 0 [40],
    .start 1 (.addEvent 40 .write (some 9) (some 0) 2), .perform 1 true,
    .dispatch 0 true, .wait 0 [40]]

theorem epoll_sound_addedWhileInHand :
    (EpollWorld.after addedWhileInHand).Sound ∧
      (EpollWorld.after addedWhileInHand).results 0 = [(40, { epollOut := true })] ∧
      (EpollWorld.after addedWhileInHand).table.contexts.scheduled = [(0, .fiber 1)] := by
  have hrun : (epollMachine.run .initial addedWhileInHand).isSome = true := by decide +kernel
  obtain ⟨s, hs⟩ := Option.isSome_iff_exists.mp hrun
  have hafter : s = .after addedWhileInHand := by
    rw [EpollWorld.after, hs]
    rfl
  have hmeets : epollMachine.Meets EpollGuard .initial addedWhileInHand := by
    refine ⟨trivial, fun _ h₁ => ⟨trivial, fun _ h₂ => ⟨rfl, fun _ h₃ => ⟨?_, fun _ _ =>
      ⟨trivial, fun _ _ => ⟨trivial, fun _ _ => ⟨trivial, fun _ _ => ⟨rfl, fun _ _ =>
        ⟨trivial, fun _ _ => ⟨rfl, fun _ _ => ⟨trivial, fun _ _ => trivial⟩⟩⟩⟩⟩⟩⟩⟩⟩⟩⟩
    cases h₁
    cases h₂
    cases h₃
    intro op hop
    cases hop
    decide
  exact ⟨(epoll_sound (.of_run addedWhileInHand (.init rfl) hmeets (hafter ▸ hs))).2,
    by decide +kernel, by decide +kernel⟩

/-- Without the hook `close` leaves the event in the table, and `epoll_ctl` has nothing to modify
    when the number is used again. -/
example : (epollMachine.run .initial [.openFile 5,
    .start 0 (.addEvent 5 .read none (some 0) 1), .perform 0 true, .close 5, .openFile 5,
    .start 0 (.addEvent 5 .write none (some 0) 1), .perform 0 true]).map
      (fun s => s.table.live 5 .write) = some false := by
  decide +kernel

end CppServerFramework.Async

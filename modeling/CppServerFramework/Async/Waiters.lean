import CppServerFramework.Async.FdContextProps

/-!
# Every waiter is resumed or removed exactly once

Beside the table of `IOManager` runs an account of the registrations made: who waits, for
which event, and what has become of it.  It is kept from the answers of the operations alone;
that the tasks handed to schedulers are those of the waiters that were handed over is what is
proved.
-/

namespace CppServerFramework.Async

inductive Fate where
  | waiting
  | handed
  | dropped
  deriving DecidableEq, Repr

/-- A registration made by an `addEvent` that returned `0`. -/
structure Waiter where
  fd : Nat
  event : Event
  task : Scheduled
  fate : Fate
  deriving DecidableEq, Repr

def Waiter.waitsFor (x : Waiter) (fd : Nat) (e : Event) : Bool :=
  x.fd = fd ∧ x.event = e ∧ x.fate = .waiting

/-- The waiters of an event meet their fate. -/
def settle (waiters : List Waiter) (fd : Nat) (e : Event) (fate : Fate) : List Waiter :=
  waiters.map fun x => if x.waitsFor fd e then { x with fate := fate } else x

def settleAll (waiters : List Waiter) (fd : Nat) (es : List Event) (fate : Fate) : List Waiter :=
  es.foldl (fun waiters e => settle waiters fd e fate) waiters

structure Books where
  io : IOManager
  waiters : List Waiter := []
  deriving DecidableEq, Repr

namespace Books

def waiting (b : Books) (fd : Nat) (e : Event) : List Waiter :=
  b.waiters.filter fun x => x.waitsFor fd e

def handed (b : Books) : List Waiter := b.waiters.filter fun x => x.fate = .handed

/-- The waiters behind an operation, from its answer. -/
def record (b : Books) : IOAction → List Waiter
  | .addEvent fd e cb scheduler fiber ctl =>
    match b.io.addEvent fd e cb scheduler fiber ctl with
    | .ok (_, 0) =>
      b.waiters ++ [⟨fd, e, (scheduler.getD 0, (cb.map Task.cb).getD (.fiber fiber)), .waiting⟩]
    | _ => b.waiters
  | .delEvent fd e ctl =>
    if (b.io.delEvent fd e ctl).2 then settle b.waiters fd e .dropped else b.waiters
  | .cancelEvent fd e ctl =>
    match b.io.cancelEvent fd e ctl with
    | .ok (_, true) => settle b.waiters fd e .handed
    | _ => b.waiters
  | .cancelAll fd ctl =>
    match b.io.cancelAll fd ctl with
    | .ok (_, true) => settleAll b.waiters fd [.read, .write] .handed
    | _ => b.waiters
  | .dispatch fd ev ctl => settleAll b.waiters fd (b.io.firing fd ev ctl) .handed

end Books

/-- The table and its account as a machine. -/
def booksMachine : Machine Books IOAction where
  init b := b = ⟨.initial, []⟩
  step b a := (b.io.apply a).toOption.map fun io => ⟨io, b.record a⟩

/-- The steps: an event is added on a thread with a scheduler and is not registered yet, and a
    dispatched result has only registered events. -/
def BooksGuard (b : Books) : IOAction → Prop
  | .addEvent fd e _ scheduler _ _ => scheduler.isSome = true ∧ b.io.registered fd e = false
  | .dispatch fd ev _ => ∀ c, b.io.fdContexts[fd]? = some c → ev.realEvents.subset c.events = true
  | _ => True

/-- `epoll_ctl` fails when it is called in the step. -/
def IOAction.ctlFails : IOAction → Bool
  | .addEvent _ _ _ _ _ ctl | .delEvent _ _ ctl | .cancelEvent _ _ ctl | .cancelAll _ ctl
  | .dispatch _ _ ctl => !ctl

/-- The table has at most grown by empty contexts, and nothing has been handed over. -/
structure IOManager.Unchanged (s t : IOManager) : Prop where
  kept : ∀ (fd : Nat) c, s.fdContexts[fd]? = some c → t.fdContexts[fd]? = some c
  new : ∀ (fd : Nat) c, s.fdContexts[fd]? = none → t.fdContexts[fd]? = some c → c = { fd := fd }
  pending : t.pendingEventCount = s.pendingEventCount
  scheduled : t.scheduled = s.scheduled

/-- The account agrees with the table: exactly the registered events have a waiter, and just
    one, whose task is in the context of the event; and the tasks handed to schedulers are those
    of the waiters handed over, each as often as it was handed over. -/
structure Books.Inv (b : Books) : Prop where
  io : b.io.Inv
  size : 2 ≤ b.io.fdContexts.length
  waiting : ∀ fd e, b.waiting fd e =
    ((b.io.taskOf fd e).map fun task => ⟨fd, e, task, .waiting⟩).toList
  handed : b.io.scheduled.Perm (b.handed.map Waiter.task)

/-! ## The tasks of a table -/

namespace FdContext

/-- Triggering events takes their tasks out of the context and leaves the others. -/
theorem taskOf_triggerEvents {es : List Event} :
    ∀ {c c' : FdContext} {tasks : List Scheduled}, c.WellFormed → es.Nodup →
      (∀ e ∈ es, c.events.has e = true) → c.triggerEvents es = .ok (c', tasks) →
      ∀ f, c'.taskOf f = if f ∈ es then none else c.taskOf f := by
  induction es with
  | nil =>
    intro c c' tasks _ _ _ hrun f
    cases hrun
    simp
  | cons e es ih =>
    intro c c' tasks h hnd hall hrun f
    obtain ⟨hnotin, hnd'⟩ := List.nodup_cons.mp hnd
    obtain ⟨task, -, htrig⟩ := h.triggerEvent (hall e List.mem_cons_self)
    rw [FdContext.triggerEvents, htrig] at hrun
    obtain ⟨⟨c'', later⟩, hrest, heq⟩ := exists_of_map_eq_ok
      (f := fun r : FdContext × List Scheduled => (r.1, [task] ++ r.2)) hrun
    cases heq
    have hall' : ∀ g ∈ es, (c.drop e).events.has g = true := by
      intro g hg
      rw [drop_events, EventMask.has_erase_ne _ (by rintro rfl; exact hnotin hg)]
      exact hall g (List.mem_cons_of_mem _ hg)
    rw [ih (h.drop e) hnd' hall' hrest f]
    by_cases hfe : f = e
    · subst hfe
      rw [if_neg hnotin, if_pos List.mem_cons_self]
      simp [taskOf, FdContext.drop]
    · rw [taskOf_drop c hfe]
      simp [hfe]

theorem taskOf_setContext (c : FdContext) (m : EventMask) (e f : Event) (x : EventContext) :
    ({ c with events := m }.setContext e x).taskOf f =
      if f = e then x.scheduler.bind fun sch =>
        match x.cb with
        | some cb => some (sch, .cb cb)
        | none => x.fiber.map fun g => (sch, .fiber g)
      else c.taskOf f := by
  unfold taskOf
  by_cases hfe : f = e
  · subst hfe
    rw [getContext_setContext, if_pos rfl]
    rfl
  · rw [getContext_setContext_ne _ hfe, if_neg hfe]
    rfl

theorem WellFormed.taskOf_isSome {c : FdContext} (h : c.WellFormed) (e : Event) :
    (c.taskOf e).isSome = c.events.has e := by
  cases he : c.events.has e with
  | false => simp [taskOf, h.free e he]
  | true =>
    obtain ⟨task, htask, -⟩ := h.triggerEvent he
    rw [htask]
    rfl

end FdContext

namespace IOManager

variable {s t : IOManager} {fd : Nat} {c c' : FdContext}

theorem Inv.taskOf_isSome (h : s.Inv) (fd : Nat) (e : Event) :
    (s.taskOf fd e).isSome = s.registered fd e := by
  unfold taskOf registered
  cases hc : s.fdContexts[fd]? with
  | none => rfl
  | some c => exact (h.wellFormed c (List.mem_of_getElem? hc)).taskOf_isSome e

theorem taskOf_set (hc : s.fdContexts[fd]? = some c) (ht : t.fdContexts = s.fdContexts.set fd c')
    (fd' : Nat) (e : Event) :
    t.taskOf fd' e = if fd' = fd then c'.taskOf e else s.taskOf fd' e := by
  obtain ⟨hlt, -⟩ := List.getElem?_eq_some_iff.mp hc
  unfold taskOf
  rw [ht, List.getElem?_set]
  by_cases hfd : fd = fd'
  · subst hfd
    simp [hlt]
  · simp [hfd, Ne.symm hfd]

/-- A descriptor beyond the table is inside of it when the table has grown. -/
theorem lt_ensureContext (hsize : 2 ≤ s.fdContexts.length) (fd : Nat) :
    fd < (s.ensureContext fd).fdContexts.length ∧
      2 ≤ (s.ensureContext fd).fdContexts.length := by
  unfold ensureContext
  split
  · rename_i hlt
    exact ⟨hlt, hsize⟩
  · rename_i hge
    simp only [contextResize, List.length_append, List.length_take, List.length_map,
      List.length_range']
    omega

theorem Unchanged.refl (s : IOManager) : s.Unchanged s where
  kept _ _ h := h
  new _ _ h h' := by rw [h] at h'; cases h'
  pending := rfl
  scheduled := rfl

theorem unchanged_contextResize {size : Nat} (hsize : s.fdContexts.length ≤ size) :
    s.Unchanged (s.contextResize size) := by
  have htake : s.fdContexts.take size = s.fdContexts := List.take_of_length_le hsize
  refine ⟨fun g c hc => ?_, fun g c hnone hc => ?_, rfl, rfl⟩
  · rw [contextResize, htake]
    exact (List.getElem?_append_left (List.getElem?_eq_some_iff.mp hc).1).trans hc
  · rw [List.getElem?_eq_none_iff] at hnone
    rw [contextResize, htake, List.getElem?_append_right hnone, List.getElem?_map,
      Option.map_eq_some_iff] at hc
    obtain ⟨i, hi, rfl⟩ := hc
    obtain ⟨hlt, hi⟩ := List.getElem?_eq_some_iff.mp hi
    rw [List.getElem_range'] at hi
    simp only [FdContext.mk.injEq, true_and, and_true]
    omega

theorem unchanged_ensureContext (hsize : 2 ≤ s.fdContexts.length) (fd : Nat) :
    s.Unchanged (s.ensureContext fd) := by
  unfold ensureContext
  split
  · exact .refl s
  · exact unchanged_contextResize (by omega)

theorem Unchanged.taskOf (h : s.Unchanged t) (fd : Nat) (e : Event) :
    t.taskOf fd e = s.taskOf fd e := by
  unfold IOManager.taskOf
  cases hc : s.fdContexts[fd]? with
  | some c => rw [h.kept fd c hc]
  | none =>
    cases hc' : t.fdContexts[fd]? with
    | none => rfl
    | some c =>
      rw [h.new fd c hc hc']
      cases e <;> rfl

theorem Unchanged.registered (h : s.Unchanged t) (fd : Nat) (e : Event) :
    t.registered fd e = s.registered fd e := by
  unfold IOManager.registered
  cases hc : s.fdContexts[fd]? with
  | some c => rw [h.kept fd c hc]
  | none =>
    cases hc' : t.fdContexts[fd]? with
    | none => rfl
    | some c =>
      rw [h.new fd c hc hc']
      cases e <;> rfl

/-- Triggering registered events takes their tasks out of the table. -/
theorem taskOf_triggerAt (h : s.Inv) (hc : s.fdContexts[fd]? = some c) {es : List Event}
    (hnd : es.Nodup) (hall : ∀ e ∈ es, c.events.has e = true) (hrun : s.triggerAt fd c es = .ok t) :
    t.fdContexts.length = s.fdContexts.length ∧
      ∀ fd' e, t.taskOf fd' e = if fd' = fd ∧ e ∈ es then none else s.taskOf fd' e := by
  have hwf := h.wellFormed c (List.mem_of_getElem? hc)
  obtain ⟨c', tasks, htrig, -⟩ := hwf.triggerEvents hnd hall
  rw [IOManager.triggerAt, htrig] at hrun
  cases hrun
  refine ⟨List.length_set, fun fd' e => ?_⟩
  rw [taskOf_set hc rfl, FdContext.taskOf_triggerEvents hwf hnd hall htrig]
  by_cases hfd : fd' = fd
  · subst hfd
    simp [IOManager.taskOf, hc]
  · simp [hfd]

end IOManager

/-! ## The account -/

section

variable {ws : List Waiter} {fd : Nat} {e : Event} {es : List Event} {fate : Fate}

theorem waitsFor_fate {x : Waiter} (hfate : fate ≠ .waiting) (fd' : Nat) (e' : Event) :
    ({ x with fate := fate } : Waiter).waitsFor fd' e' = false := by
  simp [Waiter.waitsFor, hfate]

theorem waitsFor_unique {x : Waiter} {fd' : Nat} {e' : Event} (h : x.waitsFor fd e = true) :
    x.waitsFor fd' e' = decide (fd' = fd ∧ e' = e) := by
  simp only [Waiter.waitsFor, Bool.decide_and, Bool.and_eq_true, decide_eq_true_eq] at h
  obtain ⟨rfl, rfl, hfate⟩ := h
  simp [Waiter.waitsFor, hfate, eq_comm]

/-- Behind a settlement nobody waits for the event, and who waits for others still does. -/
theorem waiting_settle (hfate : fate ≠ .waiting) (fd' : Nat) (e' : Event) :
    (settle ws fd e fate).filter (fun x => x.waitsFor fd' e') =
      if fd' = fd ∧ e' = e then [] else ws.filter fun x => x.waitsFor fd' e' := by
  induction ws with
  | nil => simp [settle]
  | cons x ws ih =>
    rw [settle, List.map_cons, List.filter_cons, List.filter_cons]
    change _ = _ at ih
    rw [settle] at ih
    by_cases hx : x.waitsFor fd e = true
    · rw [if_pos hx, waitsFor_fate hfate, ih, waitsFor_unique hx]
      by_cases h : fd' = fd ∧ e' = e <;> simp [h]
    · rw [if_neg hx, ih]
      by_cases h : fd' = fd ∧ e' = e
      · obtain ⟨rfl, rfl⟩ := h
        simp [hx]
      · simp [h]

theorem waiting_settleAll (hfate : fate ≠ .waiting) (fd' : Nat) (e' : Event) :
    (settleAll ws fd es fate).filter (fun x => x.waitsFor fd' e') =
      if fd' = fd ∧ e' ∈ es then [] else ws.filter fun x => x.waitsFor fd' e' := by
  induction es generalizing ws with
  | nil => simp [settleAll]
  | cons e es ih =>
    change (settleAll (settle ws fd e fate) fd es fate).filter _ = _
    rw [ih, waiting_settle hfate]
    by_cases hfd : fd' = fd <;> by_cases he : e' = e <;> by_cases hes : e' ∈ es <;>
      simp [hfd, he, hes]

/-- A settlement of an event for which nobody waits changes nothing. -/
theorem settle_of_waiting_nil (fate : Fate) (h : (ws.filter fun x => x.waitsFor fd e) = []) :
    settle ws fd e fate = ws := by
  rw [List.filter_eq_nil_iff] at h
  rw [settle]
  conv_rhs => rw [← List.map_id ws]
  exact List.map_congr_left fun x hx => if_neg (h x hx)

theorem handed_settle_dropped :
    (settle ws fd e .dropped).filter (fun x => x.fate = .handed) =
      ws.filter fun x => x.fate = .handed := by
  induction ws with
  | nil => rfl
  | cons x ws ih =>
    rw [settle] at ih ⊢
    rw [List.map_cons, List.filter_cons, List.filter_cons, ih]
    by_cases hx : x.waitsFor fd e = true
    · have hwait : x.fate = .waiting := by
        simp only [Waiter.waitsFor, Bool.decide_and, Bool.and_eq_true, decide_eq_true_eq] at hx
        exact hx.2.2
      simp [hx, hwait]
    · simp [hx]

/-- A waiter handed over adds its task to those handed over. -/
theorem handed_settle :
    (((settle ws fd e .handed).filter fun x => x.fate = .handed).map Waiter.task).Perm
      ((ws.filter fun x => x.fate = .handed).map Waiter.task ++
        (ws.filter fun x => x.waitsFor fd e).map Waiter.task) := by
  induction ws with
  | nil => exact List.Perm.refl _
  | cons x ws ih =>
    rw [settle] at ih ⊢
    rw [List.map_cons]
    by_cases hx : x.waitsFor fd e = true
    · have hwait : x.fate = .waiting := by
        simp only [Waiter.waitsFor, Bool.decide_and, Bool.and_eq_true, decide_eq_true_eq] at hx
        exact hx.2.2
      simp only [hx, hwait, if_true, List.filter_cons, decide_true, List.map_cons,
        reduceCtorEq, decide_false, Bool.false_eq_true, if_false]
      exact (ih.cons _).trans List.perm_middle.symm
    · simp only [hx, Bool.false_eq_true, if_false, List.filter_cons]
      split
      · exact ih.cons _
      · exact ih

theorem handed_settleAll (hnd : es.Nodup) :
    (((settleAll ws fd es .handed).filter fun x => x.fate = .handed).map Waiter.task).Perm
      ((ws.filter fun x => x.fate = .handed).map Waiter.task ++
        es.flatMap fun e => (ws.filter fun x => x.waitsFor fd e).map Waiter.task) := by
  induction es generalizing ws with
  | nil => simp [settleAll]
  | cons e es ih =>
    obtain ⟨hnotin, hnd'⟩ := List.nodup_cons.mp hnd
    rw [settleAll, List.foldl_cons]
    refine (ih hnd').trans ?_
    have hsame : (es.flatMap fun e' =>
        ((settle ws fd e .handed).filter fun x => x.waitsFor fd e').map Waiter.task) =
        es.flatMap fun e' => (ws.filter fun x => x.waitsFor fd e').map Waiter.task := by
      refine List.flatMap_congr fun e' he' => ?_
      rw [waiting_settle (by decide), if_neg]
      rintro ⟨-, rfl⟩
      exact hnotin he'
    rw [hsame, List.flatMap_cons, ← List.append_assoc]
    exact handed_settle.append_right _

end

/-! ## One operation -/

namespace Books

variable {b : Books} {io : IOManager} {fd : Nat} {e : Event} {es : List Event}

/-- An operation that changes nothing. -/
theorem Inv.unchanged (h : b.Inv) (hio : io.Inv) (hu : b.io.Unchanged io) :
    (⟨io, b.waiters⟩ : Books).Inv where
  io := hio
  size := by
    have hlt : 1 < b.io.fdContexts.length := h.size
    exact (List.getElem?_eq_some_iff.mp (hu.kept 1 _ (List.getElem?_eq_getElem hlt))).1
  waiting fd e := by rw [hu.taskOf]; exact h.waiting fd e
  handed := by rw [hu.scheduled]; exact h.handed

/-- `delEvent` drops the waiter of a registered event. -/
theorem Inv.dropped (h : b.Inv) (hio : io.Inv)
    (hlen : io.fdContexts.length = b.io.fdContexts.length)
    (htask : ∀ fd' e', io.taskOf fd' e' = if fd' = fd ∧ e' = e then none else b.io.taskOf fd' e')
    (hsch : io.scheduled = b.io.scheduled) :
    (⟨io, settle b.waiters fd e .dropped⟩ : Books).Inv where
  io := hio
  size := hlen ▸ h.size
  waiting fd' e' := by
    rw [htask, Books.waiting, waiting_settle (by decide)]
    by_cases hc : fd' = fd ∧ e' = e
    · rw [if_pos hc, if_pos hc]
      rfl
    · rw [if_neg hc, if_neg hc]
      exact h.waiting fd' e'
  handed := by
    rw [hsch, Books.handed, handed_settle_dropped]
    exact h.handed

theorem flatMap_toList_of_map {α β : Type} {f : α → Option β} {l : List α} {xs : List β}
    (h : xs.map some = l.map f) : (l.flatMap fun x => (f x).toList) = xs := by
  induction l generalizing xs with
  | nil =>
    rw [List.map_nil, List.map_eq_nil_iff] at h
    rw [h]
    rfl
  | cons x l ih =>
    cases xs with
    | nil => cases h
    | cons y ys =>
      rw [List.map_cons, List.map_cons, List.cons.injEq] at h
      rw [List.flatMap_cons, ← h.1, ih h.2]
      rfl

/-- Triggering registered events hands over their waiters. -/
theorem Inv.handedOver (h : b.Inv) (hio : io.Inv) (hnd : es.Nodup)
    (hlen : io.fdContexts.length = b.io.fdContexts.length)
    (htask : ∀ fd' e', io.taskOf fd' e' = if fd' = fd ∧ e' ∈ es then none else b.io.taskOf fd' e')
    {tasks : List Scheduled} (hsch : io.scheduled = b.io.scheduled ++ tasks)
    (htasks : tasks.map some = es.map (b.io.taskOf fd)) :
    (⟨io, settleAll b.waiters fd es .handed⟩ : Books).Inv where
  io := hio
  size := hlen ▸ h.size
  waiting fd' e' := by
    rw [htask, Books.waiting, waiting_settleAll (by decide)]
    by_cases hc : fd' = fd ∧ e' ∈ es
    · rw [if_pos hc, if_pos hc]
      rfl
    · rw [if_neg hc, if_neg hc]
      exact h.waiting fd' e'
  handed := by
    refine List.Perm.trans ?_ (handed_settleAll hnd).symm
    have hwaiting : (es.flatMap fun e =>
        (b.waiters.filter fun x => x.waitsFor fd e).map Waiter.task) = tasks := by
      rw [← flatMap_toList_of_map htasks]
      refine List.flatMap_congr fun e _ => ?_
      change (b.waiting fd e).map Waiter.task = _
      rw [h.waiting]
      cases b.io.taskOf fd e <;> rfl
    rw [hwaiting, hsch]
    exact h.handed.append_right _

/-- An event is registered for a waiter. -/
theorem Inv.added (h : b.Inv) (hio : io.Inv) (hsize : 2 ≤ io.fdContexts.length) {task : Scheduled}
    (hnone : b.io.taskOf fd e = none)
    (htask : ∀ fd' e', io.taskOf fd' e' =
      if fd' = fd ∧ e' = e then some task else b.io.taskOf fd' e')
    (hsch : io.scheduled = b.io.scheduled) :
    (⟨io, b.waiters ++ [⟨fd, e, task, .waiting⟩]⟩ : Books).Inv where
  io := hio
  size := hsize
  waiting fd' e' := by
    have hold := h.waiting fd' e'
    rw [Books.waiting] at hold ⊢
    rw [htask, List.filter_append, hold]
    by_cases hc : fd' = fd ∧ e' = e
    · obtain ⟨rfl, rfl⟩ := hc
      rw [hnone, if_pos ⟨rfl, rfl⟩]
      simp [Waiter.waitsFor]
    · rw [if_neg hc]
      have : (⟨fd, e, task, .waiting⟩ : Waiter).waitsFor fd' e' = false := by
        simp only [Waiter.waitsFor, decide_eq_false_iff_not]
        rintro ⟨rfl, rfl, -⟩
        exact hc ⟨rfl, rfl⟩
      simp [this]
  handed := by
    have hold := h.handed
    rw [Books.handed] at hold ⊢
    rw [hsch, List.filter_append]
    simpa using hold

/-- What an operation does under the guard: it goes through, keeps the account, and changes
    nothing when `epoll_ctl` fails. -/
def StepOk (b : Books) (a : IOAction) : Prop :=
  ∃ io, b.io.apply a = .ok io ∧ (⟨io, b.record a⟩ : Books).Inv ∧
    (a.ctlFails = true → b.io.Unchanged io)

theorem Inv.stepOk_unchanged (h : b.Inv) {a : IOAction} (happly : b.io.apply a = .ok io)
    (hrecord : b.record a = b.waiters) (hio : io.Inv) (hu : b.io.Unchanged io) : b.StepOk a :=
  ⟨io, happly, hrecord ▸ h.unchanged hio hu, fun _ => hu⟩

theorem Inv.addEvent (h : b.Inv) {cb scheduler : Option Nat} {fiber : Nat} {ctl : Bool}
    (hsch : scheduler.isSome = true) (hnew : b.io.registered fd e = false) :
    b.StepOk (.addEvent fd e cb scheduler fiber ctl) := by
  obtain ⟨hlt, hsize⟩ := IOManager.lt_ensureContext h.size fd
  have hu := IOManager.unchanged_ensureContext h.size fd
  have hio := h.io.ensureContext fd
  obtain ⟨c, hc⟩ : ∃ c, (b.io.ensureContext fd).fdContexts[fd]? = some c :=
    ⟨_, List.getElem?_eq_getElem hlt⟩
  have hnone : b.io.taskOf fd e = none := by
    have := h.io.taskOf_isSome fd e
    rw [hnew] at this
    exact Option.isSome_eq_false_iff.mp this |> Option.isNone_iff_eq_none.mp
  have hfree : c.events.has e = false := by
    have := hio.taskOf_isSome fd e
    rw [hu.taskOf, hnone, IOManager.registered, hc] at this
    exact this.symm
  have hempty := (hio.wellFormed c (List.mem_of_getElem? hc)).free e hfree
  cases ctl with
  | false =>
    have hrun : b.io.addEvent fd e cb scheduler fiber false =
        .ok (b.io.ensureContext fd, -1) := by
      simp [IOManager.addEvent, hc, hfree]
    exact h.stepOk_unchanged (by rw [IOManager.apply, hrun]; rfl)
      (by simp only [Books.record, hrun]) hio hu
  | true =>
    obtain ⟨sch, rfl⟩ := Option.isSome_iff_exists.mp hsch
    obtain ⟨x, task, htask, hrun⟩ : ∃ x task,
        ((x : EventContext).scheduler.bind fun sch =>
          match x.cb with
          | some cb => some (sch, .cb cb)
          | none => x.fiber.map fun g => (sch, .fiber g)) =
            some (sch, (cb.map Task.cb).getD (.fiber fiber)) ∧
        b.io.addEvent fd e cb (some sch) fiber true = .ok ({ b.io.ensureContext fd with
          fdContexts := (b.io.ensureContext fd).fdContexts.set fd
            ({ c with events := c.events.insert e }.setContext e x)
          pendingEventCount := (b.io.ensureContext fd).pendingEventCount + 1 }, 0) := by
      cases cb with
      | none => exact ⟨⟨some sch, some fiber, none⟩, (), rfl, by
          simp [IOManager.addEvent, hc, hfree, hempty]⟩
      | some x => exact ⟨⟨some sch, none, some x⟩, (), rfl, by
          simp [IOManager.addEvent, hc, hfree, hempty]⟩
    refine ⟨_, by rw [IOManager.apply, hrun]; rfl, ?_, fun hctl => by cases hctl⟩
    simp only [Books.record, hrun]
    refine h.added (h.io.addEvent rfl hrun) ?_ hnone (fun fd' e' => ?_) hu.scheduled
    · simp only [List.length_set]
      exact hsize
    · rw [IOManager.taskOf_set hc rfl, FdContext.taskOf_setContext, htask]
      by_cases hfd : fd' = fd
      · subst hfd
        by_cases he : e' = e
        · simp [he]
        · rw [if_pos rfl, if_neg he, if_neg (fun h => he h.2), ← hu.taskOf]
          simp [IOManager.taskOf, hc]
      · rw [if_neg hfd, if_neg (fun h => hfd h.1), hu.taskOf]

theorem Inv.delEvent (h : b.Inv) (fd : Nat) (e : Event) (ctl : Bool) :
    b.StepOk (.delEvent fd e ctl) := by
  have hio := h.io.delEvent fd e ctl
  cases hc : b.io.fdContexts[fd]? with
  | none =>
    have hrun : b.io.delEvent fd e ctl = (b.io, false) := by simp [IOManager.delEvent, hc]
    exact h.stepOk_unchanged (by rw [IOManager.apply, hrun]) (by simp [Books.record, hrun])
      h.io (.refl b.io)
  | some c =>
    by_cases hskip : (!c.events.has e || !ctl) = true
    · have hrun : b.io.delEvent fd e ctl = (b.io, false) := by
        simp only [IOManager.delEvent, hc, hskip, if_true]
      exact h.stepOk_unchanged (by rw [IOManager.apply, hrun]) (by simp [Books.record, hrun])
        h.io (.refl b.io)
    · have hrun : b.io.delEvent fd e ctl = ({ b.io with
          fdContexts := b.io.fdContexts.set fd
            ({ c with events := c.events.erase e }.resetContext e)
          pendingEventCount := b.io.pendingEventCount - 1 }, true) := by
        simp only [IOManager.delEvent, hc, hskip, Bool.false_eq_true, if_false]
      have hctl : ctl = true := by
        cases ctl
        · simp at hskip
        · rfl
      refine ⟨_, by rw [IOManager.apply], ?_, fun hfails => by rw [hctl] at hfails; cases hfails⟩
      simp only [Books.record, hrun, if_true]
      rw [hrun] at hio
      refine h.dropped hio List.length_set (fun fd' e' => ?_) rfl
      rw [IOManager.taskOf_set hc rfl, FdContext.resetContext, FdContext.taskOf_setContext]
      by_cases hfd : fd' = fd
      · subst hfd
        by_cases he : e' = e
        · simp [he]
        · simp [he, IOManager.taskOf, hc]
      · simp [hfd]

/-- The operations that trigger events `es` of a descriptor. -/
theorem Inv.triggers (h : b.Inv) {a : IOAction} {c : FdContext}
    (hc : b.io.fdContexts[fd]? = some c) (hnd : es.Nodup) (hall : ∀ e ∈ es, c.events.has e = true)
    (happly : b.io.apply a = b.io.triggerAt fd c es)
    (hrecord : ∀ io, b.io.triggerAt fd c es = .ok io →
      b.record a = settleAll b.waiters fd es .handed)
    (hctl : a.ctlFails = false) : b.StepOk a := by
  obtain ⟨io, tasks, hrun, hio, hsch, htasks, -⟩ := h.io.triggerAt hc hnd hall
  obtain ⟨hlen, htask⟩ := IOManager.taskOf_triggerAt h.io hc hnd hall hrun
  refine ⟨io, happly.trans hrun, ?_, fun hfails => by rw [hctl] at hfails; cases hfails⟩
  rw [hrecord io hrun]
  exact h.handedOver hio hnd hlen htask hsch htasks

theorem Inv.cancelEvent (h : b.Inv) (fd : Nat) (e : Event) (ctl : Bool) :
    b.StepOk (.cancelEvent fd e ctl) := by
  cases hc : b.io.fdContexts[fd]? with
  | none =>
    have hrun : b.io.cancelEvent fd e ctl = .ok (b.io, false) := by
      simp [IOManager.cancelEvent, hc]
    exact h.stepOk_unchanged (by rw [IOManager.apply, hrun]; rfl) (by simp only [record, hrun])
      h.io (.refl b.io)
  | some c =>
    by_cases hskip : (!c.events.has e || !ctl) = true
    · have hrun : b.io.cancelEvent fd e ctl = .ok (b.io, false) := by
        simp only [IOManager.cancelEvent, hc, hskip, if_true]
      exact h.stepOk_unchanged (by rw [IOManager.apply, hrun]; rfl) (by simp only [record, hrun])
        h.io (.refl b.io)
    · have hrun : b.io.cancelEvent fd e ctl =
          (b.io.triggerAt fd c [e]).map fun io => (io, true) := by
        simp only [IOManager.cancelEvent, hc, hskip, Bool.false_eq_true, if_false]
      simp only [Bool.or_eq_true, Bool.not_eq_true', not_or, Bool.not_eq_false] at hskip
      have hall : ∀ f ∈ [e], c.events.has f = true := by simpa using hskip.1
      refine h.triggers hc (by simp) hall ?_ ?_ ?_
      · rw [IOManager.apply, hrun]
        cases b.io.triggerAt fd c [e] <;> rfl
      · intro io htrig
        simp only [record, hrun, htrig]
        rfl
      · simp [IOAction.ctlFails, hskip.2]

/-- Settling both events is settling those that are registered. -/
theorem Inv.settleAll_toList (h : b.Inv) {c : FdContext} (hc : b.io.fdContexts[fd]? = some c) :
    settleAll b.waiters fd [.read, .write] .handed =
      settleAll b.waiters fd c.events.toList .handed := by
  have hnone : ∀ {e}, c.events.has e = false →
      (b.waiters.filter fun x => x.waitsFor fd e) = [] := by
    intro e he
    have htask := h.io.taskOf_isSome fd e
    rw [IOManager.registered, hc, Option.any_some, he] at htask
    change b.waiting fd e = []
    rw [h.waiting, Option.isSome_eq_false_iff.mp htask |> Option.isNone_iff_eq_none.mp]
    rfl
  rw [EventMask.toList]
  cases hr : c.events.read with
  | false =>
    have hread := settle_of_waiting_nil .handed (hnone (e := .read) hr)
    cases hw : c.events.write with
    | false =>
      have hwrite := settle_of_waiting_nil .handed (hnone (e := .write) hw)
      simp [settleAll, hread, hwrite]
    | true => simp [settleAll, hread]
  | true =>
    cases hw : c.events.write with
    | false =>
      have hwrite : settle (settle b.waiters fd .read .handed) fd .write .handed =
          settle b.waiters fd .read .handed := by
        refine settle_of_waiting_nil .handed ?_
        rw [waiting_settle (by decide), if_neg (by simp)]
        exact hnone hw
      simp [settleAll, hwrite]
    | true => simp [settleAll]

theorem Inv.cancelAll (h : b.Inv) (fd : Nat) (ctl : Bool) : b.StepOk (.cancelAll fd ctl) := by
  cases hc : b.io.fdContexts[fd]? with
  | none =>
    have hrun : b.io.cancelAll fd ctl = .ok (b.io, false) := by simp [IOManager.cancelAll, hc]
    exact h.stepOk_unchanged (by rw [IOManager.apply, hrun]; rfl) (by simp only [record, hrun])
      h.io (.refl b.io)
  | some c =>
    by_cases hskip : (c.events.isNone || !ctl) = true
    · have hrun : b.io.cancelAll fd ctl = .ok (b.io, false) := by
        simp only [IOManager.cancelAll, hc, hskip, if_true]
      exact h.stepOk_unchanged (by rw [IOManager.apply, hrun]; rfl) (by simp only [record, hrun])
        h.io (.refl b.io)
    · have hrun : b.io.cancelAll fd ctl =
          (b.io.triggerAt fd c c.events.toList).map fun io => (io, true) := by
        simp only [IOManager.cancelAll, hc, hskip, Bool.false_eq_true, if_false]
      simp only [Bool.or_eq_true, Bool.not_eq_true', not_or, Bool.not_eq_false] at hskip
      refine h.triggers hc c.events.nodup_toList (fun e he => EventMask.mem_toList.mp he) ?_ ?_ ?_
      · rw [IOManager.apply, hrun]
        cases b.io.triggerAt fd c c.events.toList <;> rfl
      · intro io htrig
        rw [← h.settleAll_toList hc]
        simp only [record, hrun, htrig]
        rfl
      · simp [IOAction.ctlFails, hskip.2]

theorem Inv.dispatch (h : b.Inv) {ev : EpollEvents} {ctl : Bool}
    (hsub : ∀ c, b.io.fdContexts[fd]? = some c → ev.realEvents.subset c.events = true) :
    b.StepOk (.dispatch fd ev ctl) := by
  cases hc : b.io.fdContexts[fd]? with
  | none =>
    have hrun : b.io.dispatch fd ev ctl = .ok b.io := by simp [IOManager.dispatch, hc]
    exact h.stepOk_unchanged hrun (by simp [record, IOManager.firing, hc, settleAll]) h.io
      (.refl b.io)
  | some c =>
    by_cases hskip : ((c.events.inter ev.realEvents).isNone || !ctl) = true
    · have hrun : b.io.dispatch fd ev ctl = .ok b.io := by
        simp only [IOManager.dispatch, hc, hskip, if_true]
      have hnone : b.io.firing fd ev ctl = [] := by
        simp only [IOManager.firing, hc]
        cases ctl with
        | false => rfl
        | true => exact EventMask.toList_of_isNone (by simpa using hskip)
      exact h.stepOk_unchanged hrun (by rw [record, hnone]; rfl) h.io (.refl b.io)
    · have hrun : b.io.dispatch fd ev ctl = b.io.triggerAt fd c ev.realEvents.toList := by
        simp only [IOManager.dispatch, hc, hskip, Bool.false_eq_true, if_false]
      simp only [Bool.or_eq_true, Bool.not_eq_true', not_or, Bool.not_eq_false] at hskip
      refine h.triggers hc ev.realEvents.nodup_toList (fun e he =>
        EventMask.subset_iff.mp (hsub c hc) e (EventMask.mem_toList.mp he)) hrun ?_ ?_
      · intro io _
        rw [record, IOManager.firing, hc]
        simp [hskip.2, EventMask.inter_of_subset (hsub c hc)]
      · simp [IOAction.ctlFails, hskip.2]

/-! ## Runs -/

theorem Inv.initial : (⟨.initial, []⟩ : Books).Inv where
  io := IOManager.Inv.initial
  size := by decide
  waiting fd e := by
    have hu : ({} : IOManager).Unchanged .initial := IOManager.unchanged_contextResize (by simp)
    rw [hu.taskOf]
    rfl
  handed := List.Perm.refl _

theorem Inv.step (h : b.Inv) {a : IOAction} (hg : BooksGuard b a) : b.StepOk a := by
  cases a with
  | addEvent fd e cb scheduler fiber ctl => exact h.addEvent hg.1 hg.2
  | delEvent fd e ctl => exact h.delEvent fd e ctl
  | cancelEvent fd e ctl => exact h.cancelEvent fd e ctl
  | cancelAll fd ctl => exact h.cancelAll fd ctl
  | dispatch fd ev ctl => exact h.dispatch hg

theorem Inv.of_reach (h : booksMachine.Reach BooksGuard b) : b.Inv := by
  refine h.invariant (P := Books.Inv) ?_ ?_
  · rintro b rfl
    exact Inv.initial
  · intro b a t hb hg hstep
    obtain ⟨io, happly, hinv, -⟩ := hb.step hg
    simp only [booksMachine, happly] at hstep
    cases hstep
    exact hinv

end Books

/-- After every run of operations the account is right, and the next operation that meets the
    guard goes through, keeps it right, and changes nothing if `epoll_ctl` fails. -/
theorem waiters_accounted {b : Books} (h : booksMachine.Reach BooksGuard b) :
    b.Inv ∧ ∀ a, BooksGuard b a → b.StepOk a :=
  ⟨.of_reach h, fun _ hg => (Books.Inv.of_reach h).step hg⟩

/-- Descriptor 5 has a fiber waiting to read and a callback waiting to write; the first is
    resumed, the second removed. -/
def resumedAndRemoved : List IOAction :=
  registerBoth ++ [.cancelEvent 5 .read true, .delEvent 5 .write true]

theorem waiters_accounted_resumedAndRemoved :
    (((booksMachine.run ⟨.initial, []⟩ resumedAndRemoved).getD ⟨{}, []⟩).StepOk
      (.addEvent 5 .read none (some 0) 1 true)) :=
  (waiters_accounted (.of_run resumedAndRemoved (.init rfl)
    ⟨⟨rfl, rfl⟩, fun s hs => by
      cases hs
      refine ⟨⟨rfl, by decide⟩, fun s hs => ?_⟩
      cases hs
      exact ⟨trivial, fun _ _ => ⟨trivial, fun _ _ => trivial⟩⟩⟩ rfl)).2 _ ⟨rfl, by decide⟩

end CppServerFramework.Async

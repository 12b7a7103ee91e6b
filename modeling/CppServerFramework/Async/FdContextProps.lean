import CppServerFramework.Async.FdContext

/-!
# Dispatching epoll results

The invariant of the table is that a registered event has a scheduler and exactly one of
callback and fiber, that the context of an unregistered event is empty, and that
`m_pendingEventCount` counts the registered events.  The dispatch loop keeps it, and fires
exactly the ready and registered events, for the results that meet `ResultOk`.
-/

namespace CppServerFramework.Async

/-- What `triggerEvent` would schedule for `e`. -/
def FdContext.taskOf (c : FdContext) (e : Event) : Option Scheduled := do
  let sch ← (c.getContext e).scheduler
  match (c.getContext e).cb with
  | some cb => some (sch, .cb cb)
  | none => (c.getContext e).fiber.map fun f => (sch, .fiber f)

/-- The context of an event agrees with the mask. -/
structure FdContext.WellFormed (c : FdContext) : Prop where
  registered : ∀ e, c.events.has e = true →
    (∃ sch x, c.getContext e = ⟨some sch, none, some x⟩) ∨
    (∃ sch f, c.getContext e = ⟨some sch, some f, none⟩)
  free : ∀ e, c.events.has e = false → c.getContext e = {}

namespace IOManager

def registered (s : IOManager) (fd : Nat) (e : Event) : Bool :=
  (s.fdContexts[fd]?).any fun c => c.events.has e

/-- The number of registered `(fd, event)` pairs. -/
def registeredCount (s : IOManager) : Nat := (s.fdContexts.map fun c => c.events.count).sum

def taskOf (s : IOManager) (fd : Nat) (e : Event) : Option Scheduled :=
  (s.fdContexts[fd]?).bind fun c => c.taskOf e

/-- The events a result should fire: ready and registered, none when `epoll_ctl` fails. -/
def firing (s : IOManager) (fd : Nat) (ev : EpollEvents) (ctl : Bool) : List Event :=
  match s.fdContexts[fd]? with
  | none => []
  | some c => if ctl then (c.events.inter ev.realEvents).toList else []

/-- The invariant of the table. -/
structure Inv (s : IOManager) : Prop where
  wellFormed : ∀ c ∈ s.fdContexts, c.WellFormed
  pending : s.pendingEventCount = s.registeredCount

end IOManager

/-- A dispatched result fires exactly the events it should: nothing faults, one task is
    handed over for each of them and for nothing else, they are no longer registered, and the
    counter, never negative, counts what is left. -/
def DispatchCorrect (s : IOManager) (fd : Nat) (ev : EpollEvents) (ctl : Bool) : Prop :=
  ∃ t tasks, s.dispatch fd ev ctl = .ok t ∧
    t.scheduled = s.scheduled ++ tasks ∧
    tasks.map some = (s.firing fd ev ctl).map (s.taskOf fd) ∧
    (∀ fd' e, t.registered fd' e =
      (s.registered fd' e && !(fd' == fd && (s.firing fd ev ctl).contains e))) ∧
    0 ≤ t.pendingEventCount ∧ t.pendingEventCount = t.registeredCount

/-- The results the loop handles correctly: the widened ready mask has no registered event
    or only registered events, or `epoll_ctl` fails and the result is skipped. -/
def ResultOk (s : IOManager) (fd : Nat) (ev : EpollEvents) (ctl : Bool) : Prop :=
  ∀ c, s.fdContexts[fd]? = some c →
    ctl = false ∨ (c.events.inter ev.realEvents).isNone = true ∨
      ev.realEvents.subset c.events = true

/-- The condition on a run: events are added on threads that have a scheduler, and every
    dispatched result is `ResultOk` in the state in which it is handled. -/
def IOGuard (s : IOManager) : IOAction → Prop
  | .addEvent _ _ _ scheduler _ _ => scheduler.isSome = true
  | .dispatch fd ev ctl => ResultOk s fd ev ctl
  | _ => True

/-! ## One context -/

namespace FdContext

theorem WellFormed.empty (fd : Nat) : WellFormed { fd := fd } where
  registered e h := by cases e <;> simp [EventMask.has] at h
  free e _ := by cases e <;> rfl

/-- The context `c` with `e` unregistered and its context emptied. -/
def drop (c : FdContext) (e : Event) : FdContext :=
  { c with events := c.events.erase e }.setContext e {}

theorem drop_events (c : FdContext) (e : Event) : (c.drop e).events = c.events.erase e := by
  simp [drop]

theorem WellFormed.drop {c : FdContext} (h : c.WellFormed) (e : Event) :
    (c.drop e).WellFormed where
  registered f hf := by
    by_cases hfe : f = e
    · subst hfe
      simp [drop_events] at hf
    · rw [drop_events, EventMask.has_erase_ne _ hfe] at hf
      rw [FdContext.drop, getContext_setContext_ne _ hfe]
      exact h.registered f hf
  free f hf := by
    by_cases hfe : f = e
    · subst hfe
      simp [FdContext.drop]
    · rw [drop_events, EventMask.has_erase_ne _ hfe] at hf
      rw [FdContext.drop, getContext_setContext_ne _ hfe]
      exact h.free f hf

theorem WellFormed.resetContext {c : FdContext} (h : c.WellFormed) (e : Event) :
    ({ c with events := c.events.erase e }.resetContext e).WellFormed := h.drop e

/-- A registered event has a task, and triggering it hands over that task. -/
theorem WellFormed.triggerEvent {c : FdContext} (h : c.WellFormed) {e : Event}
    (he : c.events.has e = true) :
    ∃ task, c.taskOf e = some task ∧ c.triggerEvent e = .ok (c.drop e, [task]) := by
  rcases h.registered e he with ⟨sch, x, hx⟩ | ⟨sch, f, hf⟩
  · exact ⟨(sch, .cb x), by simp [taskOf, hx],
      by simp [FdContext.triggerEvent, he, hx, FdContext.drop]⟩
  · exact ⟨(sch, .fiber f), by simp [taskOf, hf],
      by simp [FdContext.triggerEvent, he, hf, FdContext.drop]⟩

theorem taskOf_drop (c : FdContext) {e f : Event} (h : f ≠ e) :
    (c.drop e).taskOf f = c.taskOf f := by
  unfold taskOf FdContext.drop
  rw [getContext_setContext_ne _ h]
  rfl

/-- Triggering registered events, each once, hands over their tasks and unregisters them. -/
theorem WellFormed.triggerEvents {es : List Event} :
    ∀ {c : FdContext}, c.WellFormed → es.Nodup → (∀ e ∈ es, c.events.has e = true) →
      ∃ c' tasks, c.triggerEvents es = .ok (c', tasks) ∧ c'.WellFormed ∧
        tasks.map some = es.map c.taskOf ∧
        c'.events.count + es.length = c.events.count ∧
        ∀ f, c'.events.has f = (c.events.has f && !es.contains f) := by
  induction es with
  | nil => intro c h _ _; exact ⟨c, [], rfl, h, rfl, rfl, by simp⟩
  | cons e es ih =>
    intro c h hnd hall
    obtain ⟨hnotin, hnd'⟩ := List.nodup_cons.mp hnd
    obtain ⟨task, htask, htrig⟩ := h.triggerEvent (hall e (by simp))
    have hne : ∀ f ∈ es, f ≠ e := by
      rintro f hf rfl
      exact hnotin hf
    have hall' : ∀ f ∈ es, (c.drop e).events.has f = true := by
      intro f hf
      rw [drop_events, EventMask.has_erase_ne _ (hne f hf)]
      exact hall f (List.mem_cons_of_mem _ hf)
    obtain ⟨c', tasks, hrun, hwf, htasks, hcount, hhas⟩ := ih (h.drop e) hnd' hall'
    refine ⟨c', task :: tasks, ?_, hwf, ?_, ?_, ?_⟩
    · rw [FdContext.triggerEvents, htrig]
      change ((c.drop e).triggerEvents es >>= _) = _
      rw [hrun]
      rfl
    · rw [List.map_cons, List.map_cons, htask, htasks]
      congr 1
      apply List.map_congr_left
      intro f hf
      exact taskOf_drop c (hne f hf)
    · have := EventMask.count_erase c.events (hall e (by simp))
      rw [drop_events] at hcount
      rw [List.length_cons]
      omega
    · intro f
      rw [hhas, drop_events]
      by_cases hfe : f = e
      · subst hfe
        simp
      · rw [EventMask.has_erase_ne _ hfe]
        simp [hfe]

/-- Only registered events can be triggered. -/
theorem has_of_triggerEvents_ok {es : List Event} :
    ∀ {c : FdContext} {r : FdContext × List Scheduled}, c.triggerEvents es = .ok r →
      ∀ e ∈ es, c.events.has e = true := by
  induction es with
  | nil => intro c r _ e he; simp at he
  | cons e es ih =>
    intro c r hrun f hf
    by_cases he : c.events.has e = true
    · rcases List.mem_cons.mp hf with rfl | hf
      · exact he
      · -- The context left by the first trigger has one event less than `c`.
        rw [FdContext.triggerEvents] at hrun
        obtain ⟨c', now, htrig, hevents⟩ :
            ∃ c' now, c.triggerEvent e = .ok (c', now) ∧ c'.events = c.events.erase e := by
          cases htrig : c.triggerEvent e with
          | error err => rw [htrig] at hrun; cases hrun
          | ok p =>
            refine ⟨p.1, p.2, rfl, ?_⟩
            simp only [FdContext.triggerEvent, if_pos he] at htrig
            split at htrig
            · cases htrig
            · split at htrig <;> (cases htrig; simp)
        rw [htrig] at hrun
        cases hrest : c'.triggerEvents es with
        | error err => simp [hrest, bind, Except.bind] at hrun
        | ok p =>
          have := ih hrest f hf
          rw [hevents] at this
          by_cases hfe : f = e
          · exact hfe ▸ he
          · rwa [EventMask.has_erase_ne _ hfe] at this
    · simp [FdContext.triggerEvents, FdContext.triggerEvent, he, bind, Except.bind] at hrun

end FdContext

/-! ## The table -/

namespace IOManager

/-- Replacing the context of `fd` changes the number of registered pairs by its own. -/
theorem registeredCount_set {s : IOManager} {fd : Nat} {c : FdContext}
    (hc : s.fdContexts[fd]? = some c) (c' : FdContext) (n : Int) (l : List Scheduled) :
    ((IOManager.mk (s.fdContexts.set fd c') n l).registeredCount : Int) =
      s.registeredCount - c.events.count + c'.events.count := by
  obtain ⟨hlt, hget⟩ := List.getElem?_eq_some_iff.mp hc
  have hsplit : s.fdContexts = s.fdContexts.take fd ++ c :: s.fdContexts.drop (fd + 1) := by
    rw [← hget, List.cons_getElem_drop_succ, List.take_append_drop]
  have hset : s.fdContexts.set fd c' =
      s.fdContexts.take fd ++ c' :: s.fdContexts.drop (fd + 1) := by
    rw [List.set_eq_take_append_cons_drop, if_pos hlt]
  have hsum : s.registeredCount = ((s.fdContexts.take fd).map fun c => c.events.count).sum +
      (c.events.count + ((s.fdContexts.drop (fd + 1)).map fun c => c.events.count).sum) := by
    unfold registeredCount
    conv_lhs => rw [hsplit]
    simp only [List.map_append, List.map_cons, List.sum_append, List.sum_cons]
  rw [hsum, registeredCount, hset]
  simp only [List.map_append, List.map_cons, List.sum_append, List.sum_cons]
  omega

theorem wellFormed_set {s : IOManager} (h : s.Inv) (fd : Nat) {c' : FdContext}
    (hc' : c'.WellFormed) : ∀ c ∈ s.fdContexts.set fd c', c.WellFormed := by
  intro c hc
  rcases List.mem_or_eq_of_mem_set hc with hc | rfl
  · exact h.wellFormed c hc
  · exact hc'

theorem registered_set {s t : IOManager} {fd : Nat} {c c' : FdContext}
    (hc : s.fdContexts[fd]? = some c) (ht : t.fdContexts = s.fdContexts.set fd c') (fd' : Nat)
    (e : Event) :
    t.registered fd' e = if fd' = fd then c'.events.has e else s.registered fd' e := by
  obtain ⟨hlt, -⟩ := List.getElem?_eq_some_iff.mp hc
  unfold registered
  rw [ht, List.getElem?_set]
  by_cases hfd : fd = fd'
  · subst hfd
    simp [hlt]
  · simp [hfd, Ne.symm hfd]

/-- Triggering registered events of one descriptor keeps the invariant and hands over exactly
    their tasks. -/
theorem Inv.triggerAt {s : IOManager} (h : s.Inv) {fd : Nat} {c : FdContext}
    (hc : s.fdContexts[fd]? = some c) {es : List Event} (hnd : es.Nodup)
    (hall : ∀ e ∈ es, c.events.has e = true) :
    ∃ t tasks, s.triggerAt fd c es = .ok t ∧ t.Inv ∧ t.scheduled = s.scheduled ++ tasks ∧
      tasks.map some = es.map (s.taskOf fd) ∧
      ∀ fd' e, t.registered fd' e = (s.registered fd' e && !(fd' == fd && es.contains e)) := by
  have hwf := h.wellFormed c (List.mem_of_getElem? hc)
  obtain ⟨c', tasks, hrun, hwf', htasks, hcount, hhas⟩ := hwf.triggerEvents hnd hall
  refine ⟨{ s with
    fdContexts := s.fdContexts.set fd c'
    pendingEventCount := s.pendingEventCount - es.length
    scheduled := s.scheduled ++ tasks }, tasks, by rw [IOManager.triggerAt, hrun]; rfl,
    ⟨wellFormed_set h fd hwf', ?_⟩, rfl, ?_, ?_⟩
  · rw [registeredCount_set hc, h.pending]
    dsimp only
    omega
  · rw [htasks]
    apply List.map_congr_left
    intro e _
    simp [IOManager.taskOf, hc]
  · intro fd' e
    rw [registered_set hc rfl]
    by_cases hfd : fd' = fd
    · subst hfd
      simp [hhas, registered, hc]
    · simp [hfd]

theorem Inv.contextResize {s : IOManager} (h : s.Inv) {size : Nat}
    (hsize : s.fdContexts.length ≤ size) : (s.contextResize size).Inv where
  wellFormed c hc := by
    rw [IOManager.contextResize, List.take_of_length_le hsize] at hc
    rcases List.mem_append.mp hc with hc | hc
    · exact h.wellFormed c hc
    · obtain ⟨i, -, rfl⟩ := List.mem_map.mp hc
      exact .empty i
  pending := by
    have hnew : ∀ l : List Nat,
        ((l.map fun i => ({ fd := i } : FdContext)).map fun c => c.events.count).sum = 0 := by
      intro l
      induction l with
      | nil => rfl
      | cons i l ih => rw [List.map_cons, List.map_cons, List.sum_cons, ih]; rfl
    rw [registeredCount, IOManager.contextResize, List.take_of_length_le hsize, List.map_append,
      List.sum_append, hnew, Nat.add_zero]
    exact h.pending

theorem Inv.ensureContext {s : IOManager} (h : s.Inv) (fd : Nat) : (s.ensureContext fd).Inv := by
  unfold IOManager.ensureContext
  split
  · exact h
  · exact h.contextResize (by omega)

/-- `addEvent` on a thread with a scheduler keeps the invariant. -/
theorem Inv.addEvent {s : IOManager} (h : s.Inv) {fd : Nat} {e : Event}
    {cb scheduler : Option Nat} {fiber : Nat} {ctl : Bool} (hsch : scheduler.isSome = true)
    {r : IOManager × Int} (hrun : s.addEvent fd e cb scheduler fiber ctl = .ok r) : r.1.Inv := by
  have h' : (s.ensureContext fd).Inv := h.ensureContext fd
  unfold IOManager.addEvent at hrun
  generalize s.ensureContext fd = u at h' hrun
  dsimp only at hrun
  cases hc : u.fdContexts[fd]? with
  | none => simp [hc] at hrun
  | some c =>
    rw [hc] at hrun
    have hwf := h'.wellFormed c (List.mem_of_getElem? hc)
    dsimp only at hrun
    split at hrun
    · cases hrun
    · rename_i hnew
      split at hrun
      · cases hrun; exact h'
      · have hempty := hwf.free e (by simpa using hnew)
        rw [hempty] at hrun
        simp only [Option.isSome_none, Bool.or_self, Bool.false_eq_true, if_false,
          Except.ok.injEq] at hrun
        subst hrun
        obtain ⟨sch, rfl⟩ := Option.isSome_iff_exists.mp hsch
        refine ⟨wellFormed_set h' fd ⟨?_, ?_⟩, ?_⟩
        · intro f hf
          by_cases hfe : f = e
          · subst hfe
            rw [FdContext.getContext_setContext]
            cases cb with
            | none => exact Or.inr ⟨sch, fiber, rfl⟩
            | some x => exact Or.inl ⟨sch, x, rfl⟩
          · rw [FdContext.setContext_events, EventMask.has_insert_ne _ hfe] at hf
            rw [FdContext.getContext_setContext_ne _ hfe]
            exact hwf.registered f hf
        · intro f hf
          by_cases hfe : f = e
          · subst hfe
            simp at hf
          · rw [FdContext.setContext_events, EventMask.has_insert_ne _ hfe] at hf
            rw [FdContext.getContext_setContext_ne _ hfe]
            exact hwf.free f hf
        · rw [registeredCount_set hc, FdContext.setContext_events,
            EventMask.count_insert c.events (by simpa using hnew), h'.pending]
          dsimp only
          omega

theorem Inv.delEvent {s : IOManager} (h : s.Inv) (fd : Nat) (e : Event) (ctl : Bool) :
    (s.delEvent fd e ctl).1.Inv := by
  unfold IOManager.delEvent
  cases hc : s.fdContexts[fd]? with
  | none => exact h
  | some c =>
    have hwf := h.wellFormed c (List.mem_of_getElem? hc)
    dsimp only
    split
    · exact h
    · rename_i hok
      have hhas : c.events.has e = true := by
        cases hb : c.events.has e <;> simp [hb] at hok ⊢
      refine ⟨wellFormed_set h fd (hwf.resetContext e), ?_⟩
      have hcount := EventMask.count_erase c.events hhas
      rw [registeredCount_set hc, FdContext.resetContext, FdContext.setContext_events, h.pending]
      dsimp only
      omega

end IOManager

theorem EventMask.nodup_toList (m : EventMask) : m.toList.Nodup := by
  rcases m with ⟨r, w⟩
  cases r <;> cases w <;> decide

theorem EventMask.mem_toList {m : EventMask} {e : Event} : e ∈ m.toList ↔ m.has e = true := by
  rcases m with ⟨r, w⟩
  cases r <;> cases w <;> cases e <;> decide

theorem EventMask.toList_of_isNone {m : EventMask} (h : m.isNone = true) : m.toList = [] := by
  rcases m with ⟨r, w⟩
  cases r <;> cases w <;> simp_all [EventMask.isNone, EventMask.toList]

theorem EventMask.subset_iff {m n : EventMask} :
    m.subset n = true ↔ ∀ e, m.has e = true → n.has e = true := by
  rcases m with ⟨r, w⟩
  rcases n with ⟨r', w'⟩
  refine ⟨fun h e => ?_, fun h => ?_⟩
  · cases e <;> simp_all [EventMask.subset, EventMask.has] <;> grind
  · have hr := h .read
    have hw := h .write
    simp only [EventMask.subset, EventMask.has] at hr hw ⊢
    cases r <;> cases w <;> simp_all

theorem EventMask.inter_of_subset {m n : EventMask} (h : m.subset n = true) : n.inter m = m := by
  rcases m with ⟨r, w⟩
  rcases n with ⟨r', w'⟩
  simp only [EventMask.subset, EventMask.inter, EventMask.mk.injEq] at *
  cases r <;> cases w <;> simp_all

/-! ## Steps and runs -/

theorem exists_of_map_eq_ok {ε α β : Type} {f : α → β} {x : Except ε α} {b : β}
    (h : x.map f = .ok b) : ∃ a, x = .ok a ∧ f a = b := by
  cases x with
  | error err => cases h
  | ok a => exact ⟨a, rfl, Except.ok.inj h⟩

namespace IOManager

theorem Inv.cancelEvent {s : IOManager} (h : s.Inv) {fd : Nat} {e : Event} {ctl : Bool}
    {r : IOManager × Bool} (hrun : s.cancelEvent fd e ctl = .ok r) : r.1.Inv := by
  unfold IOManager.cancelEvent at hrun
  cases hc : s.fdContexts[fd]? with
  | none => rw [hc] at hrun; cases hrun; exact h
  | some c =>
    rw [hc] at hrun
    dsimp only at hrun
    split at hrun
    · cases hrun; exact h
    · rename_i hok
      have hhas : c.events.has e = true := by
        cases hb : c.events.has e <;> simp [hb] at hok ⊢
      obtain ⟨t, -, htrig, hinv, -⟩ := h.triggerAt hc (by simp : [e].Nodup) (by simpa using hhas)
      rw [htrig] at hrun
      cases hrun
      exact hinv

theorem Inv.cancelAll {s : IOManager} (h : s.Inv) {fd : Nat} {ctl : Bool}
    {r : IOManager × Bool} (hrun : s.cancelAll fd ctl = .ok r) : r.1.Inv := by
  unfold IOManager.cancelAll at hrun
  cases hc : s.fdContexts[fd]? with
  | none => rw [hc] at hrun; cases hrun; exact h
  | some c =>
    rw [hc] at hrun
    dsimp only at hrun
    split at hrun
    · cases hrun; exact h
    · obtain ⟨t, -, htrig, hinv, -⟩ :=
        h.triggerAt hc c.events.nodup_toList fun e he => EventMask.mem_toList.mp he
      rw [htrig] at hrun
      cases hrun
      exact hinv

/-- A result that meets `ResultOk` is handled correctly. -/
theorem Inv.dispatch {s : IOManager} (h : s.Inv) {fd : Nat} {ev : EpollEvents} {ctl : Bool}
    (hok : ResultOk s fd ev ctl) :
    ∃ t tasks, s.dispatch fd ev ctl = .ok t ∧ t.Inv ∧ t.scheduled = s.scheduled ++ tasks ∧
      tasks.map some = (s.firing fd ev ctl).map (s.taskOf fd) ∧
      ∀ fd' e, t.registered fd' e =
        (s.registered fd' e && !(fd' == fd && (s.firing fd ev ctl).contains e)) := by
  cases hc : s.fdContexts[fd]? with
  | none => exact ⟨s, [], by simp [IOManager.dispatch, hc], h, by simp, by simp [firing, hc],
      by simp [firing, hc]⟩
  | some c =>
    by_cases hskip : (c.events.inter ev.realEvents).isNone = true ∨ ctl = false
    · have hnone : s.firing fd ev ctl = [] := by
        rcases hskip with hskip | rfl
        · simp [firing, hc, EventMask.toList_of_isNone hskip]
        · simp [firing, hc]
      have hrun : s.dispatch fd ev ctl = .ok s := by
        rcases hskip with hskip | rfl
        · simp [IOManager.dispatch, hc, hskip]
        · simp [IOManager.dispatch, hc]
      exact ⟨s, [], hrun, h, by simp, by simp [hnone], by simp [hnone]⟩
    · simp only [not_or, Bool.not_eq_true, Bool.not_eq_false] at hskip
      obtain ⟨hmeet, rfl⟩ := hskip
      have hsub : ev.realEvents.subset c.events = true := by
        rcases hok c hc with h0 | h0 | h0
        · cases h0
        · rw [hmeet] at h0; cases h0
        · exact h0
      have hfire : s.firing fd ev true = ev.realEvents.toList := by
        simp [firing, hc, EventMask.inter_of_subset hsub]
      have hrun : s.dispatch fd ev true = s.triggerAt fd c ev.realEvents.toList := by
        simp [IOManager.dispatch, hc, hmeet]
      rw [hfire, hrun]
      exact h.triggerAt hc ev.realEvents.nodup_toList fun e he =>
        EventMask.subset_iff.mp hsub e (EventMask.mem_toList.mp he)

/-- A result that does not meet `ResultOk` runs into the `ASSERT` of `triggerEvent`. -/
theorem resultOk_of_dispatch_ok {s t : IOManager} {fd : Nat} {ev : EpollEvents} {ctl : Bool}
    (hrun : s.dispatch fd ev ctl = .ok t) : ResultOk s fd ev ctl := by
  intro c hc
  by_cases hskip : (c.events.inter ev.realEvents).isNone = true ∨ ctl = false
  · rcases hskip with hskip | hskip
    · exact Or.inr (Or.inl hskip)
    · exact Or.inl hskip
  · simp only [not_or, Bool.not_eq_true, Bool.not_eq_false] at hskip
    obtain ⟨hmeet, rfl⟩ := hskip
    simp only [IOManager.dispatch, hc, hmeet, Bool.not_true, Bool.or_self, Bool.false_eq_true,
      if_false] at hrun
    refine Or.inr (Or.inr (EventMask.subset_iff.mpr fun e he => ?_))
    cases htrig : c.triggerEvents ev.realEvents.toList with
    | error err => rw [IOManager.triggerAt, htrig] at hrun; cases hrun
    | ok r => exact FdContext.has_of_triggerEvents_ok htrig e (EventMask.mem_toList.mpr he)

theorem Inv.initial : IOManager.initial.Inv :=
  Inv.contextResize (s := {}) ⟨by simp, rfl⟩ (by simp)

/-- One guarded step keeps the invariant. -/
theorem Inv.step {s t : IOManager} {a : IOAction} (h : s.Inv) (hg : IOGuard s a)
    (hstep : ioMachine.step s a = some t) : t.Inv := by
  have hok : s.apply a = .ok t := by
    simp only [ioMachine] at hstep
    cases hr : s.apply a with
    | error err => rw [hr] at hstep; cases hstep
    | ok u => rw [hr] at hstep; cases hstep; rfl
  cases a with
  | addEvent fd e cb scheduler fiber ctl =>
    obtain ⟨r, hr, rfl⟩ := exists_of_map_eq_ok hok
    exact h.addEvent hg hr
  | delEvent fd e ctl => cases hok; exact h.delEvent fd e ctl
  | cancelEvent fd e ctl =>
    obtain ⟨r, hr, rfl⟩ := exists_of_map_eq_ok hok
    exact h.cancelEvent hr
  | cancelAll fd ctl =>
    obtain ⟨r, hr, rfl⟩ := exists_of_map_eq_ok hok
    exact h.cancelAll hr
  | dispatch fd ev ctl =>
    obtain ⟨u, -, hu, hinv, -⟩ := h.dispatch hg
    rw [IOManager.apply, hu] at hok
    cases hok
    exact hinv

theorem Inv.of_reach {s : IOManager} (h : ioMachine.Reach IOGuard s) : s.Inv :=
  h.invariant (fun _ hs => hs ▸ Inv.initial) fun _ _ _ hs hg hstep => hs.step hg hstep

end IOManager

/-- In every state of a run that meets the guard the counter equals the number of registered
    pairs, and a result is handled correctly exactly when it meets `ResultOk`. -/
theorem dispatch_correct_iff {s : IOManager} (h : ioMachine.Reach IOGuard s) :
    s.pendingEventCount = s.registeredCount ∧
    ∀ fd ev ctl, DispatchCorrect s fd ev ctl ↔ ResultOk s fd ev ctl := by
  have hinv := IOManager.Inv.of_reach h
  refine ⟨hinv.pending, fun fd ev ctl => ⟨?_, fun hok => ?_⟩⟩
  · rintro ⟨t, -, hrun, -⟩
    exact IOManager.resultOk_of_dispatch_ok hrun
  · obtain ⟨t, tasks, hrun, hinv', hsch, htasks, hreg⟩ := hinv.dispatch hok
    refine ⟨t, tasks, hrun, hsch, htasks, hreg, ?_, hinv'.pending⟩
    rw [hinv'.pending]
    omega

/-- A run that registers both events of descriptor 5 on scheduler 0. -/
def registerBoth : List IOAction :=
  [.addEvent 5 .read none (some 0) 1 true, .addEvent 5 .write (some 9) (some 0) 1 true]

/-- With both events registered, a hangup fires both. -/
theorem dispatch_correct_registerBoth :
    DispatchCorrect ((ioMachine.run IOManager.initial registerBoth).getD {}) 5
      { epollHup := true } true := by
  have hreach : ioMachine.Reach IOGuard ((ioMachine.run IOManager.initial registerBoth).getD {}) :=
    .of_run registerBoth (.init rfl) ⟨rfl, fun _ _ => ⟨rfl, fun _ _ => trivial⟩⟩ rfl
  refine ((dispatch_correct_iff hreach).2 5 _ true).mpr fun c hc => Or.inr (Or.inr ?_)
  cases hc
  rfl

/-- A descriptor registered for `WRITE` alone, as in a hooked `connect`, whose peer refuses:
    the hangup also triggers `READ`, and the `ASSERT` of `triggerEvent` fails. -/
theorem dispatch_hangup_write_only :
    ¬ ∀ s, ioMachine.Reachable s → s.pendingEventCount = s.registeredCount ∧
      ∀ fd ev ctl, DispatchCorrect s fd ev ctl := by
  intro h
  have hreach : ioMachine.Reachable ((ioMachine.run IOManager.initial
      [.addEvent 5 .write none (some 0) 1 true]).getD {}) :=
    .of_run [.addEvent 5 .write none (some 0) 1 true] (s := IOManager.initial) rfl rfl
  obtain ⟨t, -, hrun, -⟩ := (h _ hreach).2 5 { epollErr := true, epollHup := true } true
  cases hrun

end CppServerFramework.Async

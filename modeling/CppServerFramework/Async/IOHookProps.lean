import CppServerFramework.Async.IOHook

/-!
# No hooked call waits with its timeout spent

A fiber that waits for its event is either scheduled already, or its event is registered for
it and the callback that cancels the event is still to run.  The first needs that nothing but
the dispatch and the cancelling of the event takes the registration away; the second that the
event is registered before the callback runs, which the guard asks for.
-/

namespace CppServerFramework.Async

/-! ## What the I/O manager does to a waiting fiber -/

/-- The fiber is registered for the event. -/
def FdContext.Waits (c : FdContext) (e : Event) (sch f : Nat) : Prop :=
  c.events.has e = true ∧ c.getContext e = ⟨some sch, some f, none⟩

namespace FdContext

variable {c d : FdContext} {e e' : Event} {sch f : Nat}

theorem Waits.triggerEvent_self (h : c.Waits e sch f) :
    ∃ d, c.triggerEvent e = .ok (d, [(sch, .fiber f)]) := by
  rw [FdContext.triggerEvent, if_pos h.1, h.2]
  exact ⟨_, rfl⟩

theorem Waits.triggerEvent_ne (h : c.Waits e sch f) (hne : e ≠ e') {tasks : List Scheduled}
    (ht : c.triggerEvent e' = .ok (d, tasks)) : d.Waits e sch f := by
  have hevents : d.events = c.events.erase e' ∧ d.getContext e = c.getContext e := by
    rw [FdContext.triggerEvent] at ht
    split at ht
    · simp only at ht
      split at ht
      · cases ht
      · split at ht <;> cases ht <;>
          exact ⟨setContext_events _ _ _, getContext_setContext_ne _ hne _⟩
    · cases ht
  rw [Waits, hevents.1, hevents.2, EventMask.has_erase_ne _ hne]
  exact h

/-- Triggering a list of events schedules the fiber if its event is among them, and leaves it
    registered otherwise. -/
theorem Waits.triggerEvents {es : List Event} {tasks : List Scheduled} (h : c.Waits e sch f)
    (ht : c.triggerEvents es = .ok (d, tasks)) :
    (e ∈ es → (sch, Task.fiber f) ∈ tasks) ∧ (e ∉ es → d.Waits e sch f) := by
  induction es generalizing c tasks with
  | nil =>
    cases ht
    exact ⟨fun he => (by cases he), fun _ => h⟩
  | cons x es ih =>
    simp only [FdContext.triggerEvents, bind, Except.bind] at ht
    split at ht
    case h_1 => cases ht
    rename_i r hx
    split at ht
    case h_1 => cases ht
    rename_i r' hes
    cases ht
    by_cases hex : e = x
    · subst hex
      obtain ⟨d', hd'⟩ := h.triggerEvent_self
      rw [hd'] at hx
      cases hx
      exact ⟨fun _ => by simp, fun hnot => absurd List.mem_cons_self hnot⟩
    · obtain ⟨hmem, hnot⟩ := ih (h.triggerEvent_ne hex hx) hes
      refine ⟨fun he => List.mem_append_right _ (hmem ?_), fun he => hnot fun h' => ?_⟩
      · exact (List.mem_cons.mp he).resolve_left hex
      · exact he (List.mem_cons_of_mem _ h')

end FdContext

namespace IOManager

variable {s t : IOManager} {fd fd' : Nat} {e e' : Event} {sch f : Nat}

/-- The fiber is registered for the event of the descriptor. -/
def Waits (s : IOManager) (fd : Nat) (e : Event) (sch f : Nat) : Prop :=
  ∃ c, s.fdContexts[fd]? = some c ∧ c.Waits e sch f

/-- The step hands the fiber to its scheduler. -/
def Schedules (s t : IOManager) (sch f : Nat) : Prop :=
  ∃ tasks, t.scheduled = s.scheduled ++ tasks ∧ (sch, Task.fiber f) ∈ tasks

theorem triggerAt_ok {c : FdContext} {es : List Event} (h : s.triggerAt fd c es = .ok t) :
    ∃ d tasks, c.triggerEvents es = .ok (d, tasks) ∧ t.fdContexts = s.fdContexts.set fd d ∧
      t.scheduled = s.scheduled ++ tasks := by
  simp only [IOManager.triggerAt, bind, Except.bind] at h
  split at h
  · cases h
  · rename_i r hr
    cases h
    exact ⟨r.1, r.2, hr, rfl, rfl⟩

theorem Waits.triggerAt (h : s.Waits fd e sch f) {c : FdContext} {es : List Event}
    (hc : s.fdContexts[fd']? = some c) (ht : s.triggerAt fd' c es = .ok t) :
    (fd' = fd → e ∈ es → s.Schedules t sch f) ∧ ((fd' = fd → e ∉ es) → t.Waits fd e sch f) := by
  obtain ⟨d, tasks, hrun, hcontexts, hscheduled⟩ := triggerAt_ok ht
  obtain ⟨c', hc', hw⟩ := h
  by_cases hfd : fd' = fd
  · subst hfd
    rw [hc, Option.some.injEq] at hc'
    subst hc'
    obtain ⟨hmem, hnot⟩ := hw.triggerEvents hrun
    refine ⟨fun _ he => ⟨tasks, hscheduled, hmem he⟩, fun he => ⟨d, ?_, hnot (he rfl)⟩⟩
    rw [hcontexts, List.getElem?_set_self (List.getElem?_eq_some_iff.mp hc).1]
  · refine ⟨fun h => absurd h hfd, fun _ => ⟨c', ?_, hw⟩⟩
    rw [hcontexts, List.getElem?_set_ne hfd, hc']

theorem Waits.ensureContext (h : s.Waits fd e sch f) (fd' : Nat) :
    (s.ensureContext fd').Waits fd e sch f := by
  obtain ⟨c, hc, hw⟩ := h
  rw [IOManager.ensureContext]
  split
  · exact ⟨c, hc, hw⟩
  · rename_i hlt
    refine ⟨c, ?_, hw⟩
    have hfd := (List.getElem?_eq_some_iff.mp hc).1
    rw [contextResize, List.getElem?_append_left (by rw [List.length_take]; omega),
      List.getElem?_take_of_lt (by omega), hc]

theorem Waits.set (h : s.Waits fd e sch f) {d : FdContext}
    (hd : fd' = fd → d.Waits e sch f) (ht : t.fdContexts = s.fdContexts.set fd' d) :
    t.Waits fd e sch f := by
  obtain ⟨c, hc, hw⟩ := h
  by_cases hfd : fd' = fd
  · subst hfd
    refine ⟨d, ?_, hd rfl⟩
    rw [ht, List.getElem?_set_self (List.getElem?_eq_some_iff.mp hc).1]
  · refine ⟨c, ?_, hw⟩
    rw [ht, List.getElem?_set_ne hfd, hc]

/-- What a successful `addEvent` registers. -/
def added (c : FdContext) (e : Event) (cb scheduler : Option Nat) (fiber : Nat) : FdContext :=
  { c with events := c.events.insert e }.setContext e
    (match cb with
    | some cb => { c.getContext e with scheduler := scheduler, cb := some cb }
    | none => { c.getContext e with scheduler := scheduler, fiber := some fiber })

/-- `addEvent` leaves the table as it is when `epoll_ctl` fails, and registers an event that was
    not registered otherwise. -/
theorem addEvent_ok {cb scheduler : Option Nat} {fiber : Nat} {ctl : Bool} {rt : Int}
    (h : s.addEvent fd e cb scheduler fiber ctl = .ok (t, rt)) :
    t = s.ensureContext fd ∧ rt = -1 ∨
      ∃ c, (s.ensureContext fd).fdContexts[fd]? = some c ∧ c.events.has e = false ∧
        c.getContext e = {} ∧ rt = 0 ∧ t.scheduled = (s.ensureContext fd).scheduled ∧
        t.fdContexts = (s.ensureContext fd).fdContexts.set fd (added c e cb scheduler fiber) := by
  simp only [IOManager.addEvent] at h
  split at h
  · cases h
  · rename_i c hc
    split at h
    · cases h
    · rename_i hhas
      split at h
      · cases h
        exact Or.inl ⟨rfl, rfl⟩
      · split at h
        · cases h
        · rename_i hfree
          cases h
          refine Or.inr ⟨c, hc, by simpa using hhas, ?_, rfl, rfl, rfl⟩
          revert hfree
          rcases c.getContext e with ⟨_ | _, _ | _, _ | _⟩ <;> simp

theorem ensureContext_scheduled (s : IOManager) (fd : Nat) :
    (s.ensureContext fd).scheduled = s.scheduled := by
  rw [IOManager.ensureContext]
  split <;> rfl

/-- The fiber that adds the event waits for it. -/
theorem waits_addEvent {ctl : Bool}
    (h : s.addEvent fd e none (some sch) f ctl = .ok (t, 0)) : t.Waits fd e sch f := by
  rcases addEvent_ok h with ⟨-, hrt⟩ | ⟨c, hc, -, hfree, -, -, hset⟩
  · cases hrt
  · refine ⟨added c e none (some sch) f, ?_, ?_, ?_⟩
    · rw [hset, List.getElem?_set_self (List.getElem?_eq_some_iff.mp hc).1]
    · cases e <;> rfl
    · rw [added, FdContext.getContext_setContext, hfree]

theorem Waits.addEvent {cb scheduler : Option Nat} {fiber : Nat} {ctl : Bool} {rt : Int}
    (h : s.Waits fd e sch f) (ht : s.addEvent fd' e' cb scheduler fiber ctl = .ok (t, rt)) :
    t.Waits fd e sch f := by
  have hens := h.ensureContext fd'
  rcases addEvent_ok ht with ⟨rfl, -⟩ | ⟨c, hc, hhas, -, -, -, hset⟩
  · exact hens
  · refine hens.set (fun hfd => ?_) hset
    subst hfd
    obtain ⟨c', hc', hw⟩ := hens
    rw [hc, Option.some.injEq] at hc'
    subst hc'
    have hne : e ≠ e' := by
      rintro rfl
      simp [hw.1] at hhas
    refine ⟨?_, ?_⟩
    · unfold added
      rw [FdContext.setContext_events, EventMask.has_insert_ne _ hne]
      exact hw.1
    · unfold added
      rw [FdContext.getContext_setContext_ne _ hne]
      exact hw.2

theorem Waits.delEvent {ctl : Bool} (h : s.Waits fd e sch f) (hne : ¬ (fd' = fd ∧ e' = e)) :
    (s.delEvent fd' e' ctl).1.Waits fd e sch f := by
  simp only [IOManager.delEvent]
  split
  · exact h
  · rename_i c hc
    split
    · exact h
    · refine h.set (fun hfd => ?_) rfl
      have he : e ≠ e' := fun he => hne ⟨hfd, he.symm⟩
      subst hfd
      obtain ⟨c', hc', hw⟩ := h
      rw [hc, Option.some.injEq] at hc'
      subst hc'
      refine ⟨?_, ?_⟩
      · rw [FdContext.resetContext, FdContext.setContext_events, EventMask.has_erase_ne _ he]
        exact hw.1
      · rw [FdContext.resetContext, FdContext.getContext_setContext_ne _ he]
        exact hw.2

/-- What the steps that trigger events do: nothing, or trigger some events of a context. -/
theorem apply_triggers {a : IOAction} (h : s.apply a = .ok t)
    (ha : ∀ fd e cb scheduler fiber ctl, a ≠ .addEvent fd e cb scheduler fiber ctl)
    (hd : ∀ fd e ctl, a ≠ .delEvent fd e ctl) :
    t = s ∨ ∃ fd' c es, s.fdContexts[fd']? = some c ∧ s.triggerAt fd' c es = .ok t := by
  have hmap : ∀ {x : Except Fault IOManager} {b : Bool},
      (x.map fun s => (s, b)).map Prod.fst = .ok t → x = .ok t := by
    intro x b hx
    cases x with
    | error x => cases hx
    | ok u =>
      cases hx
      rfl
  cases a with
  | addEvent fd e cb scheduler fiber ctl => exact (ha fd e cb scheduler fiber ctl rfl).elim
  | delEvent fd e ctl => exact (hd fd e ctl rfl).elim
  | cancelEvent fd e ctl =>
    simp only [IOManager.apply, IOManager.cancelEvent] at h
    split at h
    · cases h
      exact Or.inl rfl
    · split at h
      · cases h
        exact Or.inl rfl
      · exact Or.inr ⟨fd, _, _, ‹_›, hmap h⟩
  | cancelAll fd ctl =>
    simp only [IOManager.apply, IOManager.cancelAll] at h
    split at h
    · cases h
      exact Or.inl rfl
    · split at h
      · cases h
        exact Or.inl rfl
      · exact Or.inr ⟨fd, _, _, ‹_›, hmap h⟩
  | dispatch fd ev ctl =>
    simp only [IOManager.apply, IOManager.dispatch] at h
    split at h
    · cases h
      exact Or.inl rfl
    · split at h
      · cases h
        exact Or.inl rfl
      · exact Or.inr ⟨fd, _, _, ‹_›, h⟩

/-- A step of the I/O manager that does not delete the event keeps the fiber registered or
    schedules it. -/
theorem Waits.apply {a : IOAction} (h : s.Waits fd e sch f) (ht : s.apply a = .ok t)
    (hdel : ∀ ctl, a ≠ .delEvent fd e ctl) : t.Waits fd e sch f ∨ s.Schedules t sch f := by
  cases a with
  | addEvent fd' e' cb scheduler fiber ctl =>
    simp only [IOManager.apply] at ht
    cases hadd : s.addEvent fd' e' cb scheduler fiber ctl with
    | error x => rw [hadd] at ht; cases ht
    | ok r =>
      rw [hadd] at ht
      cases ht
      exact Or.inl (h.addEvent hadd)
  | delEvent fd' e' ctl =>
    cases ht
    exact Or.inl (h.delEvent fun hne => hdel ctl (by rw [hne.1, hne.2]))
  | _ =>
    rcases apply_triggers ht (by simp) (by simp) with rfl | ⟨fd', c, es, hc, hrun⟩
    · exact Or.inl h
    · obtain ⟨hmem, hnot⟩ := h.triggerAt hc hrun
      by_cases he : fd' = fd ∧ e ∈ es
      · exact Or.inr (hmem he.1 he.2)
      · exact Or.inl (hnot fun h' h'' => he ⟨h', h''⟩)

/-- The tasks handed over so far stay. -/
theorem scheduled_apply {a : IOAction} (h : s.apply a = .ok t) :
    ∃ tasks, t.scheduled = s.scheduled ++ tasks := by
  cases a with
  | addEvent fd' e' cb scheduler fiber ctl =>
    simp only [IOManager.apply] at h
    cases hadd : s.addEvent fd' e' cb scheduler fiber ctl with
    | error x => rw [hadd] at h; cases h
    | ok r =>
      obtain ⟨u, rt⟩ := r
      rw [hadd] at h
      cases h
      refine ⟨[], ?_⟩
      rw [List.append_nil, ← ensureContext_scheduled s fd']
      rcases addEvent_ok hadd with ⟨ht, -⟩ | ⟨c, -, -, -, -, ht, -⟩
      · rw [ht]
      · exact ht
  | delEvent fd' e' ctl =>
    cases h
    refine ⟨[], ?_⟩
    simp only [IOManager.delEvent, List.append_nil]
    split
    · rfl
    · split <;> rfl
  | _ =>
    rcases apply_triggers h (by simp) (by simp) with rfl | ⟨fd', c, es, hc, hrun⟩
    · exact ⟨[], (List.append_nil _).symm⟩
    · obtain ⟨d, tasks, -, -, htasks⟩ := triggerAt_ok hrun
      exact ⟨tasks, htasks⟩

/-- `cancelEvent` schedules the fiber when its `epoll_ctl` succeeds. -/
theorem Waits.cancelEvent {r : IOManager × Bool} (h : s.Waits fd e sch f)
    (ht : s.cancelEvent fd e true = .ok r) : s.Schedules r.1 sch f := by
  obtain ⟨c, hc, hw⟩ := h
  rw [IOManager.cancelEvent, hc] at ht
  simp only [hw.1, Bool.not_true, Bool.or_false, Bool.false_eq_true, if_false] at ht
  cases hrun : s.triggerAt fd c [e] with
  | error x => rw [hrun] at ht; cases ht
  | ok t =>
    rw [hrun] at ht
    cases ht
    exact ((show s.Waits fd e sch f from ⟨c, hc, hw⟩).triggerAt hc hrun).1 rfl
      (List.mem_singleton.mpr rfl)

end IOManager

namespace HookState

variable {s t : HookState}

/-- The timer of the current attempt is in the set, or its callback has been collected and has
    not run. -/
def TimerArmed (s : HookState) : Prop :=
  ∃ i t, s.timer = some i ∧ s.timers[i]? = some t ∧ t.status ≠ .gone

/-- A fiber parked on its event with a timeout has its timer armed or has been scheduled. -/
def NoLostTimeout (s : HookState) : Prop :=
  s.phase = .parked → s.timeout ≠ -1 → s.TimerArmed ∨ s.Pending

/-- The fiber is between `addEvent` and its resumption, and nothing has scheduled it. -/
def Waiting (s : HookState) : Prop := (s.phase = .registered ∨ s.phase = .parked) ∧ ¬ s.Pending

end HookState

/-- The condition on a step: the event is not registered when a callback has already marked the
    call as cancelled, and the `epoll_ctl` of a callback that cancels the event of a waiting
    fiber succeeds. -/
def HookGuard (s : HookState) : HookAction → Prop
  | .addEvent _ => s.cancelled = false
  | .callback i ctl => s.Waiting → (∀ t, s.timers[i]? = some t → s.effective t = true) → ctl = true
  | _ => True

/-- What never changes about a timer. -/
def CondTimer.key (t : CondTimer) : Nat × Nat × Event := (t.call, t.fd, t.event)

namespace HookState

variable {s t : HookState}

/-- What guarded runs keep: the timers are of earlier calls or watch the current one; a fiber
    that waits is registered for its event, and the callback of its timer has yet to run. -/
structure Inv (s : HookState) : Prop where
  known : ∀ k ∈ s.timers.map CondTimer.key, k.1 < s.call ∨ k = (s.call, s.fd, s.event)
  own : ∀ i, s.timer = some i → (s.timers.map CondTimer.key)[i]? = some (s.call, s.fd, s.event)
  resumes : s.resumes ≤ s.io.scheduled.count s.task
  armed : s.phase = .armed → s.cancelled = false → s.timeout ≠ -1 → s.TimerArmed
  waits : s.Waiting → s.io.Waits s.fd s.event s.scheduler s.fiber ∧ s.cancelled = false ∧
    (s.timeout ≠ -1 → s.TimerArmed)

/-- Steps of the fiber that leave the I/O manager and the waiting phases alone. -/
theorem Inv.away (h : s.Inv) (hkeys : t.timers.map CondTimer.key = s.timers.map CondTimer.key)
    (hcall : t.call = s.call ∧ t.fd = s.fd ∧ t.event = s.event) (htimer : t.timer = s.timer)
    (hresumes : t.resumes ≤ t.io.scheduled.count t.task)
    (hphase : t.phase ≠ .armed ∧ t.phase ≠ .registered ∧ t.phase ≠ .parked) : t.Inv where
  known := by
    rw [hkeys, hcall.1, hcall.2.1, hcall.2.2]
    exact h.known
  own := by
    rw [hkeys, hcall.1, hcall.2.1, hcall.2.2, htimer]
    exact h.own
  resumes := hresumes
  armed hp := absurd hp hphase.1
  waits hp := by
    rcases hp.1 with hp | hp
    · exact absurd hp hphase.2.1
    · exact absurd hp hphase.2.2

theorem keys_set {l : List CondTimer} {i : Nat} {t u : CondTimer} (h : l[i]? = some t)
    (hkey : u.key = t.key) : (l.set i u).map CondTimer.key = l.map CondTimer.key := by
  refine List.ext_getElem? fun j => ?_
  rw [List.getElem?_map, List.getElem?_map]
  by_cases hij : i = j
  · subst hij
    rw [List.getElem?_set_self (List.getElem?_eq_some_iff.mp h).1, h, Option.map_some, hkey]
    rfl
  · rw [List.getElem?_set_ne hij]

theorem keys_cancelTimer (s : HookState) :
    s.cancelTimer.map CondTimer.key = s.timers.map CondTimer.key := by
  rw [cancelTimer]
  split
  · refine List.ext_getElem? fun j => ?_
    rw [List.getElem?_map, List.getElem?_map, List.getElem?_modify, Option.map_eq_map,
      Option.map_map]
    congr 1
    funext t
    simp only [Function.comp_apply]
    split <;> rfl
  · rfl

/-- The fiber stays scheduled while it is not resumed. -/
theorem Pending.mono (h : s.Pending) (htask : t.task = s.task) (hresumes : t.resumes = s.resumes)
    (hio : ∃ tasks, t.io.scheduled = s.io.scheduled ++ tasks) : t.Pending := by
  obtain ⟨tasks, htasks⟩ := hio
  rw [Pending, htask, hresumes, htasks, List.count_append]
  exact Nat.lt_add_right _ h

theorem pending_of_schedules (h : s.Inv) (htask : t.task = s.task)
    (hresumes : t.resumes = s.resumes) (hio : s.io.Schedules t.io s.scheduler s.fiber) :
    t.Pending := by
  obtain ⟨tasks, htasks, hmem⟩ := hio
  have hpos : 0 < tasks.count s.task := List.count_pos_iff.mpr hmem
  have hle := h.resumes
  rw [Pending, htask, hresumes, htasks, List.count_append]
  omega

theorem Inv.enter (h : s.Inv) {kind : HookKind} {fd : Nat} {event : Event} {timeout : UInt64}
    (hs : s.enter kind fd event timeout = some t) : t.Inv := by
  simp only [HookState.enter] at hs
  split at hs
  · cases hs
    refine ⟨fun k hk => ?_, (by simp), h.resumes, (by simp), fun hw => ?_⟩
    · rcases h.known k hk with hlt | rfl
      · exact Or.inl (Nat.lt_succ_of_lt hlt)
      · exact Or.inl (Nat.lt_succ_self s.call)
    · simp [Waiting] at hw
  · cases hs

theorem Inv.tryCall (h : s.Inv) {blocks : Bool} (hs : s.tryCall blocks = some t) : t.Inv := by
  simp only [HookState.tryCall] at hs
  split at hs
  · cases hs
    refine h.away rfl ⟨rfl, rfl, rfl⟩ rfl h.resumes ?_
    cases blocks <;> simp
  · cases hs

theorem Inv.arm (h : s.Inv) (hs : s.arm = some t) : t.Inv := by
  simp only [HookState.arm] at hs
  split at hs
  case h_2 => cases hs
  split at hs
  · rename_i htimeout
    cases hs
    exact ⟨h.known, (by simp), h.resumes, fun _ _ hne => absurd htimeout hne,
      fun hw => by simp [Waiting] at hw⟩
  · cases hs
    refine ⟨fun k hk => ?_, fun i hi => ?_, h.resumes, fun _ _ _ => ?_,
      fun hw => by simp [Waiting] at hw⟩
    · rw [List.map_append, List.mem_append] at hk
      rcases hk with hk | hk
      · exact h.known k hk
      · exact Or.inr (by simpa [CondTimer.key] using hk)
    · cases hi
      simp [CondTimer.key]
    · exact ⟨s.timers.length, ⟨s.call, s.fd, s.event, .inSet⟩, rfl, by simp, by simp⟩

theorem Inv.addEvent (h : s.Inv) {ctl : Bool} (hg : HookGuard s (.addEvent ctl))
    (hs : s.addEvent ctl = some t) : t.Inv := by
  simp only [HookState.addEvent] at hs
  split at hs
  case h_2 => cases hs
  rename_i hphase
  split at hs
  case h_2 => cases hs
  rename_i io rt hadd
  cases hs
  obtain ⟨tasks, htasks⟩ : ∃ tasks, io.scheduled = s.io.scheduled ++ tasks :=
    IOManager.scheduled_apply (a := .addEvent s.fd s.event none (some s.scheduler) s.fiber ctl)
      (by rw [IOManager.apply, hadd]; rfl)
  have hresumes : s.resumes ≤ io.scheduled.count s.task := by
    rw [htasks, List.count_append]
    exact Nat.le_add_right_of_le h.resumes
  by_cases hrt : rt = 0
  · subst hrt
    exact ⟨h.known, h.own, hresumes, (by simp), fun _ =>
      ⟨IOManager.waits_addEvent hadd, hg, h.armed hphase hg⟩⟩
  · refine h.away rfl ⟨rfl, rfl, rfl⟩ rfl hresumes ?_
    simp [hrt]

theorem Inv.yieldToHold (h : s.Inv) (hs : s.yieldToHold = some t) : t.Inv := by
  simp only [HookState.yieldToHold] at hs
  split at hs
  · rename_i hphase
    cases hs
    exact ⟨h.known, h.own, h.resumes, (by simp), fun hw => h.waits ⟨Or.inl hphase, hw.2⟩⟩
  · cases hs

theorem Inv.resume (h : s.Inv) (hs : s.resume = some t) : t.Inv := by
  simp only [HookState.resume] at hs
  split at hs
  · simp only [Option.ite_none_right_eq_some, Option.some.injEq] at hs
    obtain ⟨hpending, rfl⟩ := hs
    exact h.away rfl ⟨rfl, rfl, rfl⟩ rfl hpending (by simp)
  · cases hs

theorem Inv.cancel (h : s.Inv) (hs : s.cancel = some t) : t.Inv := by
  simp only [HookState.cancel] at hs
  split at hs
  · cases hs
    exact h.away (keys_cancelTimer s) ⟨rfl, rfl, rfl⟩ rfl h.resumes (by simp)
  · cases hs
    exact h.away (keys_cancelTimer s) ⟨rfl, rfl, rfl⟩ rfl h.resumes (by simp)
  · cases hs

theorem Inv.check (h : s.Inv) (hs : s.check = some t) : t.Inv := by
  simp only [HookState.check] at hs
  split at hs
  · cases hs
    refine h.away rfl ⟨rfl, rfl, rfl⟩ rfl h.resumes ?_
    simp only
    split
    · simp
    · split <;> simp
  · cases hs

theorem Inv.collect (h : s.Inv) {i : Nat} (hs : s.collect i = some t) : t.Inv := by
  simp only [HookState.collect] at hs
  split at hs
  case h_2 => cases hs
  rename_i call fd event hi
  cases hs
  have hkeys := keys_set (u := ⟨call, fd, event, .collected⟩) hi rfl
  have harmed : s.TimerArmed → HookState.TimerArmed
      { s with timers := s.timers.set i ⟨call, fd, event, .collected⟩ } := by
    rintro ⟨j, u, hj, hu, hgone⟩
    by_cases hij : i = j
    · subst hij
      exact ⟨i, _, hj, List.getElem?_set_self (List.getElem?_eq_some_iff.mp hi).1, by simp⟩
    · exact ⟨j, u, hj, by rw [List.getElem?_set_ne hij]; exact hu, hgone⟩
  refine ⟨?_, ?_, h.resumes, fun hp hc hne => harmed (h.armed hp hc hne), fun hw => ?_⟩
  · rw [hkeys]
    exact h.known
  · rw [hkeys]
    exact h.own
  · obtain ⟨hio, hc, hto⟩ := h.waits hw
    exact ⟨hio, hc, fun hne => harmed (hto hne)⟩

/-- While the call is not cancelled, a callback without effect is not that of its own timer. -/
theorem Inv.timerArmed_set (h : s.Inv) {i : Nat} {u : CondTimer} (hi : s.timers[i]? = some u)
    (hphase : s.phase ≠ .returned) (hc : s.cancelled = false) (heff : s.effective u = false)
    (harmed : s.TimerArmed) :
    HookState.TimerArmed { s with timers := s.timers.set i { u with status := .gone } } := by
  obtain ⟨j, v, hj, hv, hgone⟩ := harmed
  have hij : i ≠ j := by
    rintro rfl
    have hkey := h.own i hj
    rw [List.getElem?_map, hi, Option.map_some, Option.some.injEq] at hkey
    have hcall : u.call = s.call := congrArg Prod.fst hkey
    simp [effective, hcall, hphase, hc] at heff
  exact ⟨j, v, hj, by rw [List.getElem?_set_ne hij]; exact hv, hgone⟩

theorem Inv.callback (h : s.Inv) {i : Nat} {ctl : Bool} (hg : HookGuard s (.callback i ctl))
    (hs : s.callback i ctl = some t) : t.Inv := by
  simp only [HookState.callback] at hs
  split at hs
  case h_2 => cases hs
  rename_i u hi
  split at hs
  case isFalse => cases hs
  have hkeys : (s.timers.set i { u with status := .gone }).map CondTimer.key =
      s.timers.map CondTimer.key := keys_set hi rfl
  by_cases heff : s.effective u = true
  · rw [if_pos heff] at hs
    split at hs
    case h_2 => cases hs
    rename_i io r hcancel
    cases hs
    have hio := IOManager.scheduled_apply (a := .cancelEvent u.fd u.event ctl)
      (by rw [IOManager.apply, hcancel]; rfl)
    refine ⟨?_, ?_, ?_, fun _ hc => (by cases hc), fun hw => ?_⟩
    · rw [hkeys]
      exact h.known
    · rw [hkeys]
      exact h.own
    · obtain ⟨tasks, htasks⟩ := hio
      change s.resumes ≤ io.scheduled.count s.task
      rw [htasks, List.count_append]
      exact Nat.le_add_right_of_le h.resumes
    · -- the event of a waiting fiber is cancelled, which schedules it
      exfalso
      have hwait : s.Waiting := ⟨hw.1, fun hp => hw.2 (Pending.mono hp rfl rfl hio)⟩
      obtain rfl := hg hwait fun v hv => by
        rw [hi, Option.some.injEq] at hv
        exact hv ▸ heff
      have hcall : u.call = s.call := by
        simp only [effective, Bool.decide_and, Bool.and_eq_true, decide_eq_true_eq] at heff
        exact heff.1
      have hkey : u.key = (s.call, s.fd, s.event) := by
        refine (h.known u.key (List.mem_map_of_mem (List.mem_of_getElem? hi))).resolve_left ?_
        exact fun hlt => absurd hcall (Nat.ne_of_lt hlt)
      have hfd : u.fd = s.fd := congrArg (fun k => k.2.1) hkey
      have hevent : u.event = s.event := congrArg (fun k => k.2.2) hkey
      rw [hfd, hevent] at hcancel
      exact hw.2 (pending_of_schedules h rfl rfl ((h.waits hwait).1.cancelEvent hcancel))
  · rw [if_neg heff] at hs
    cases hs
    have hne : s.effective u = false := by simpa using heff
    refine ⟨?_, ?_, h.resumes, fun hp hc hto => ?_, fun hw => ?_⟩
    · rw [hkeys]
      exact h.known
    · rw [hkeys]
      exact h.own
    · have hphase : s.phase ≠ .returned := by
        rw [show s.phase = .armed from hp]
        simp
      exact h.timerArmed_set hi hphase hc hne (h.armed hp hc hto)
    · obtain ⟨hio, hc, hto⟩ := h.waits hw
      have hphase : s.phase ≠ .returned := by
        rcases hw.1 with hp | hp <;> rw [show s.phase = _ from hp] <;> simp
      exact ⟨hio, hc, fun hne' => h.timerArmed_set hi hphase hc hne (hto hne')⟩

theorem Inv.other (h : s.Inv) {a : IOAction} (hs : s.other a = some t) : t.Inv := by
  simp only [HookState.other, Option.ite_none_right_eq_some, Option.map_eq_some_iff] at hs
  obtain ⟨hmay, io, happly, rfl⟩ := hs
  have hok : s.io.apply a = .ok io := by
    revert happly
    cases s.io.apply a <;> simp [Except.toOption]
  have hio := IOManager.scheduled_apply hok
  refine ⟨h.known, h.own, ?_, h.armed, fun hw => ?_⟩
  · obtain ⟨tasks, htasks⟩ := hio
    change s.resumes ≤ io.scheduled.count s.task
    rw [htasks, List.count_append]
    exact Nat.le_add_right_of_le h.resumes
  · have hwait : s.Waiting := ⟨hw.1, fun hp => hw.2 (Pending.mono hp rfl rfl hio)⟩
    obtain ⟨hwaits, hc, hto⟩ := h.waits hwait
    refine ⟨?_, hc, hto⟩
    refine (hwaits.apply hok ?_).resolve_right fun hsch =>
      hw.2 (pending_of_schedules h rfl rfl hsch)
    rintro ctl rfl
    simp [mayDo] at hmay

theorem Inv.initial (fiber scheduler : Nat) :
    ({ fiber := fiber, scheduler := scheduler } : HookState).Inv where
  known _ hk := by simp at hk
  own _ hi := by cases hi
  resumes := Nat.zero_le _
  armed hp := by cases hp
  waits hw := by simp [Waiting] at hw

theorem Inv.step (h : s.Inv) {a : HookAction} (hg : HookGuard s a) (hs : s.step a = some t) :
    t.Inv := by
  cases a with
  | enter kind fd event timeout => exact h.enter hs
  | tryCall blocks => exact h.tryCall hs
  | arm => exact h.arm hs
  | addEvent ctl => exact h.addEvent hg hs
  | yieldToHold => exact h.yieldToHold hs
  | resume => exact h.resume hs
  | cancel => exact h.cancel hs
  | check => exact h.check hs
  | collect i => exact h.collect hs
  | callback i ctl => exact h.callback hg hs
  | other a => exact h.other hs

theorem Inv.noLostTimeout (h : s.Inv) : s.NoLostTimeout := by
  intro hparked hto
  by_cases hp : s.Pending
  · exact Or.inr hp
  · exact Or.inl ((h.waits ⟨Or.inr hparked, hp⟩).2.2 hto)

end HookState

/-- In every state of a run whose steps meet the guard, a fiber parked on its event with a
    timeout has its timer armed or has been scheduled. -/
theorem hook_noLostTimeout {s : HookState} (h : hookMachine.Reach HookGuard s) :
    s.NoLostTimeout := by
  refine (h.invariant (P := HookState.Inv) ?_ ?_).noLostTimeout
  · rintro s ⟨fiber, scheduler, rfl⟩
    exact HookState.Inv.initial fiber scheduler
  · intro s a t hs hg hstep
    exact hs.step hg hstep

/-- A read with a timeout of one second that would block. -/
def parkedRead : HookState :=
  (hookMachine.run { fiber := 0, scheduler := 0 }
    [.enter .io 5 .read 1000, .tryCall true, .arm, .addEvent true, .yieldToHold]).getD
    { fiber := 0, scheduler := 0 }

theorem hook_noLostTimeout_parkedRead : parkedRead.NoLostTimeout ∧ parkedRead.phase = .parked := by
  refine ⟨hook_noLostTimeout (.of_run [HookAction.enter .io 5 .read 1000, .tryCall true, .arm,
    .addEvent true, .yieldToHold] (.init ⟨0, 0, rfl⟩) ⟨trivial, fun _ h => ⟨trivial, fun _ h' =>
      ⟨trivial, fun _ h'' => ⟨?_, fun _ _ => ⟨trivial, fun _ _ => trivial⟩⟩⟩⟩⟩ rfl), rfl⟩
  cases h
  cases h'
  cases h''
  rfl

/-- The timer expires, and its callback runs, before the event is registered. -/
def timerFirst : HookState :=
  (hookMachine.run { fiber := 0, scheduler := 0 }
    [.enter .io 5 .read 1, .tryCall true, .arm, .collect 0, .callback 0 true, .addEvent true,
      .yieldToHold]).getD { fiber := 0, scheduler := 0 }

theorem timeout_lost_before_addEvent :
    ¬ ∀ s, hookMachine.Reachable s → s.NoLostTimeout := by
  intro h
  have hreach : hookMachine.Reachable timerFirst :=
    .of_run [HookAction.enter .io 5 .read 1, .tryCall true, .arm, .collect 0, .callback 0 true,
      .addEvent true, .yieldToHold] ⟨0, 0, rfl⟩ rfl
  rcases h _ hreach rfl (by decide) with ⟨i, t, hi, ht, hgone⟩ | hpending
  · cases hi
    cases ht
    exact hgone rfl
  · revert hpending
    decide

end CppServerFramework.Async

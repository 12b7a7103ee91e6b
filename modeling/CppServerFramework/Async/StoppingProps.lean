import CppServerFramework.Async.Stopping
import CppServerFramework.Misc.Tally

/-!
# `stopping` and what is left to do

The three reads of `IOManager::stopping` see the timers, the events and the queue at different
times, and a worker that is about to schedule something need not count as active.  The guard
names the steps that make this matter; along guarded runs nothing is left, and nothing comes,
once `stopping` has returned true.
-/

namespace CppServerFramework.Async

namespace StopPhase

/-- The worker counts in `m_activeThreadCount`. -/
def counted : StopPhase → Bool
  | .claimed _ | .dropping | .running _ | .adding _ | .deleting _ | .triggering (some _)
  | .triggered (some _) | .returned _ => true
  | _ => false

/-- The worker has in hand an event that counts in `m_pendingEventCount`. -/
def inFlight : StopPhase → Bool
  | .adding _ | .triggering _ | .triggered _ => true
  | _ => false

/-- The worker does not count as active and is about to schedule something: a fiber that is
    `READY`, or callbacks of timers. -/
def owes (state : Nat → FiberState) : StopPhase → Bool
  | .settling f => state f = .ready
  | .requeue _ => true
  | .collected n => n ≠ 0
  | _ => false

/-- The worker's `stopping` has found no timer. -/
def pastTimers : StopPhase → Bool
  | .timerRead | .eventsRead => true
  | _ => false

end StopPhase

namespace Stopping

/-- Nothing is left to do: no task is queued or runs, no fiber that is `READY` and no callback of
    a timer is about to be queued, and there is no timer and no event. -/
structure Quiet (s : Stopping) : Prop where
  queue : s.queue = []
  inactive : ∀ w < s.threads, (s.phase w).counted = false
  owes : ∀ w < s.threads, (s.phase w).owes s.state = false
  timers : s.timers.set = []
  events : s.events = 0
  pending : s.pendingEventCount = 0
  requested : s.requested = true

/-- Nothing is left, and nothing has come, when a worker's `stopping` returns true or has done
    so. -/
def NothingLeft (s : Stopping) : Prop :=
  ∀ w < s.threads, s.phase w = .stopped ∨ s.idleTerm w = true → s.Quiet

end Stopping

/-- The condition on a step: no timer is added while a `stopping` has read the timers and goes on,
    no event while one has read the number of events and goes on; and when the third read finds no
    task queued and no worker active, none is about to schedule a fiber that is `READY` or the
    callbacks of timers.  The clock does not read 0. -/
def StopGuard (s : Stopping) : StopAction → Prop
  | .timer a | .taskTimer _ a =>
    a.adds = true → ∀ w < s.threads, (s.phase w).pastTimers = false
  | .countEvent _ => ∀ w < s.threads, s.phase w ≠ .eventsRead
  | .readQueue _ =>
    s.requested = true → s.queue = [] → s.activeThreadCount = 0 →
      ∀ w < s.threads, (s.phase w).owes s.state = false
  | .readTimer _ now => now ≠ 0
  | _ => True

instance (s : Stopping) : ∀ a, Decidable (StopGuard s a)
  | .timer a | .taskTimer _ a => inferInstanceAs
    (Decidable (a.adds = true → ∀ w < s.threads, (s.phase w).pastTimers = false))
  | .countEvent _ => inferInstanceAs (Decidable (∀ w < s.threads, s.phase w ≠ .eventsRead))
  | .readQueue _ => inferInstanceAs (Decidable (s.requested = true → s.queue = [] →
      s.activeThreadCount = 0 → ∀ w < s.threads, (s.phase w).owes s.state = false))
  | .readTimer _ now => inferInstanceAs (Decidable (now ≠ 0))
  | .schedule _ | .stop | .scan _ | .swapIn _ _ | .drop _ | .swapOut _ _ | .countDown _
  | .settle _ | .requeue _ | .enterIdle _ | .readEvents _ | .endIdle _ | .wake _ | .collect _ _ _
  | .scheduleExpired _ | .leaveIdle _ | .trigger _ | .scheduleTriggered _ _ | .countTriggered _
  | .registerEvent _ | .uncountEvent _ | .removeEvent _ | .taskSchedule _ _ =>
    inferInstanceAs (Decidable True)

namespace TimerManager

variable {m m' : TimerManager}

/-- Without a timer, there is none after a call that does not add one. -/
theorem call_nil {a : TimerAction} (h : m.set = []) (hadds : a.adds = false)
    (hcall : m.call a = some m') : m'.set = [] := by
  have hfind : ∀ (m : TimerManager) i, m.set = [] → m.find i = none := by
    intro m i hm
    rw [find, hm]
    rfl
  cases a with
  | addTimer | addConditionTimer => cases hadds
  | getNextTimer | listExpiredCb => cases hcall
  | cancel i =>
    simp only [call] at hcall
    split at hcall
    · obtain ⟨⟨m₁, ok⟩, hcancel, rfl⟩ := Option.map_eq_some_iff.mp hcall
      rw [cancel] at hcancel
      split at hcancel
      · cases hcancel
        exact h
      · simp only [hfind (m.setTimer i _) i h, Option.map_none] at hcancel
        cases hcancel
    · cases hcall
  | refresh i now =>
    simp only [call, refresh, hfind m i h] at hcall
    split at hcall
    · cases hcall
      split <;> exact h
    · cases hcall
  | reset i ms fromNow now =>
    simp only [call, reset, hfind m i h] at hcall
    split at hcall
    · cases hcall
      split
      · exact h
      · split <;> exact h
    · cases hcall

/-- `getNextTimer` tells that there is no timer. -/
theorem getNextTimer_eq {now : UInt64} (hnow : now ≠ 0) (h : (m.getNextTimer now).2 = ~~~0) :
    m.set = [] := by
  rw [getNextTimer] at h
  cases hset : m.set with
  | nil => rfl
  | cons i is =>
    simp only [hset] at h
    split at h
    · cases h
    · rename_i hge
      have hle : now ≤ (m.timers i).next := UInt64.le_of_lt (UInt64.not_le.mp hge)
      have hlt := (m.timers i).next.toNat_lt
      have hpos : 0 < now.toNat := Nat.pos_of_ne_zero fun hzero => hnow (UInt64.toNat_inj.mp hzero)
      have hmax : ((m.timers i).next - now).toNat = 18446744073709551615 := congrArg UInt64.toNat h
      rw [UInt64.toNat_sub_of_le _ _ hle] at hmax
      omega

theorem getNextTimer_set {now : UInt64} : (m.getNextTimer now).1.set = m.set := by
  rw [getNextTimer]
  cases hset : m.set with
  | nil => rfl
  | cons i is =>
    simp only
    split <;> rfl

theorem listExpiredCb_nil {now : UInt64} {addr : Nat} (h : m.set = []) :
    m.listExpiredCb now addr = (m, []) := by
  rw [listExpiredCb, if_pos h]

end TimerManager

namespace Stopping

open Tally

variable {s t : Stopping} {w : Nat} {p q : StopPhase}

/-- What guarded runs keep: the counters count, an evaluation of `stopping` that goes on has seen
    what is still so, and nothing is left once one has returned true. -/
structure Inv (s : Stopping) : Prop where
  active : s.activeThreadCount = tally StopPhase.counted s.phase s.threads
  pending : s.pendingEventCount = s.events + tally StopPhase.inFlight s.phase s.threads
  pastTimers : ∀ w < s.threads, (s.phase w).pastTimers = true → s.timers.set = []
  pastEvents : ∀ w < s.threads, s.phase w = .eventsRead → s.pendingEventCount = 0
  nothingLeft : s.NothingLeft

/-- The worker `w` goes on to phase `q`. -/
structure Turn (s : Stopping) (w : Nat) (q : StopPhase) (t : Stopping) : Prop where
  threads : t.threads = s.threads
  phase : t.phase = Function.update s.phase w q
  idleTerm : ∀ w', t.idleTerm w' = true → s.idleTerm w' = true ∨ s.phase w = .stopped
  active : t.activeThreadCount + (s.phase w).counted.toNat =
    s.activeThreadCount + q.counted.toNat
  pending : t.pendingEventCount + s.events + (s.phase w).inFlight.toNat =
    s.pendingEventCount + t.events + q.inFlight.toNat
  timers : s.timers.set = [] → t.timers.set = [] ∨ ∀ w' < s.threads, (s.phase w').pastTimers = false
  events : s.pendingEventCount = 0 →
    t.pendingEventCount = 0 ∨ ∀ w' < s.threads, s.phase w' ≠ .eventsRead
  pastTimers : q.pastTimers = true → t.timers.set = []
  pastEvents : q = .eventsRead → t.pendingEventCount = 0
  quiet : s.Quiet ∨ q = .stopped → t.Quiet

theorem Inv.turn (h : s.Inv) (hw : w < s.threads) (ht : s.Turn w q t) : t.Inv := by
  have hself : t.phase w = q := by rw [ht.phase, Function.update_self]
  have hother : ∀ w', w' ≠ w → t.phase w' = s.phase w' := fun w' hne => by
    rw [ht.phase, Function.update_of_ne hne]
  refine ⟨?_, ?_, ?_, ?_, ?_⟩
  · have htally := tally_update (p := StopPhase.counted) (f := s.phase) hw q
    have hactive := ht.active
    rw [h.active] at hactive
    rw [ht.threads, ht.phase]
    omega
  · have htally := tally_update (p := StopPhase.inFlight) (f := s.phase) hw q
    have hpending := ht.pending
    rw [h.pending] at hpending
    rw [ht.threads, ht.phase]
    omega
  · intro w' hw' hpast
    by_cases hne : w' = w
    · rw [hne, hself] at hpast
      exact ht.pastTimers hpast
    · rw [hother w' hne] at hpast
      rw [ht.threads] at hw'
      rcases ht.timers (h.pastTimers w' hw' hpast) with hnil | hnone
      · exact hnil
      · rw [hnone w' hw'] at hpast
        cases hpast
  · intro w' hw' hpast
    by_cases hne : w' = w
    · rw [hne, hself] at hpast
      exact ht.pastEvents hpast
    · rw [hother w' hne] at hpast
      rw [ht.threads] at hw'
      exact (ht.events (h.pastEvents w' hw' hpast)).resolve_right fun hnone =>
        hnone w' hw' hpast
  · intro w' hw' hstop
    rw [ht.threads] at hw'
    apply ht.quiet
    rcases hstop with hstop | hstop
    · by_cases hne : w' = w
      · rw [hne, hself] at hstop
        exact Or.inr hstop
      · rw [hother w' hne] at hstop
        exact Or.inl (h.nothingLeft w' hw' (Or.inl hstop))
    · rcases ht.idleTerm w' hstop with hold | hnew
      · exact Or.inl (h.nothingLeft w' hw' (Or.inr hold))
      · exact Or.inl (h.nothingLeft w hw (Or.inl hnew))

/-! ## Turns -/

/-- While a task runs, something is left to do. -/
theorem not_quiet (hw : w < s.threads) (hp : s.phase w = p) (hc : p.counted = true) : ¬s.Quiet := by
  intro hq
  have hinactive := hq.inactive w hw
  rw [hp, hc] at hinactive
  cases hinactive

/-- A worker without a task goes on, and nothing comes. -/
theorem Quiet.goes (h : s.Quiet) (hthreads : t.threads = s.threads)
    (hphase : t.phase = Function.update s.phase w q) (hcount : q.counted = false)
    (howes : q.owes t.state = false) (hstate : ∀ f, t.state f = .ready → s.state f = .ready)
    (hqueue : t.queue = []) (htimers : t.timers.set = []) (hevents : t.events = 0)
    (hpending : t.pendingEventCount = 0) (hrequested : t.requested = true) : t.Quiet := by
  refine ⟨hqueue, ?_, ?_, htimers, hevents, hpending, hrequested⟩
  · intro w' hw'
    rw [hthreads] at hw'
    rw [hphase]
    by_cases hne : w' = w
    · rw [hne, Function.update_self, hcount]
    · rw [Function.update_of_ne hne, h.inactive w' hw']
  · intro w' hw'
    rw [hthreads] at hw'
    rw [hphase]
    by_cases hne : w' = w
    · rw [hne, Function.update_self, howes]
    · rw [Function.update_of_ne hne]
      have hold := h.owes w' hw'
      cases hp : s.phase w' with
      | settling f =>
        rw [hp] at hold
        simp only [StopPhase.owes, decide_eq_false_iff_not] at hold ⊢
        exact fun hf => hold (hstate f hf)
      | _ =>
        rw [hp] at hold
        exact hold

/-- A turn in a state that is not quiet. -/
theorem turn_busy {st : Nat → FiberState} {queue : List FiberAndThread}
    {active pending events : Nat} (hp : s.phase w = p) (hbusy : ¬s.Quiet)
    (hpast : q.pastTimers = false) (hstop : q ≠ .stopped)
    (hactive : active + p.counted.toNat = s.activeThreadCount + q.counted.toNat)
    (hpending : pending + s.events + p.inFlight.toNat =
      s.pendingEventCount + events + q.inFlight.toNat)
    (hevents : s.pendingEventCount = 0 →
      pending = 0 ∨ ∀ w' < s.threads, s.phase w' ≠ .eventsRead) :
    s.Turn w q { s with
      state := st
      queue := queue
      activeThreadCount := active
      pendingEventCount := pending
      events := events
      phase := Function.update s.phase w q } := by
  subst hp
  refine ⟨rfl, rfl, fun _ => Or.inl, hactive, hpending, Or.inl, hevents, ?_, ?_, ?_⟩
  · rw [hpast]
    exact fun h => Bool.noConfusion h
  · rintro rfl
    cases hpast
  · exact fun h => h.elim (fun hq => absurd hq hbusy) fun heq => absurd heq hstop

/-- The task of the worker goes on. -/
theorem turn_task {st : Nat → FiberState} {queue : List FiberAndThread} (hw : w < s.threads)
    (hp : s.phase w = p) (hc : p.counted = true) (hcount : q.counted = true)
    (hflight : q.inFlight = p.inFlight) :
    s.Turn w q { s with state := st, queue := queue, phase := Function.update s.phase w q } := by
  refine turn_busy hp (not_quiet hw hp hc) ?_ ?_ ?_ ?_ Or.inl
  · cases q <;> first | rfl | cases hcount
  · rintro rfl
    cases hcount
  · rw [hc, hcount]
  · rw [hflight]

/-- The worker goes on without a task, and schedules nothing. -/
theorem turn_idle {st : Nat → FiberState} {timers : TimerManager} (hp : s.phase w = p)
    (hc : p.counted = false) (hcount : q.counted = false) (hflight : q.inFlight = p.inFlight)
    (hevents : q ≠ .eventsRead) (hstop : q ≠ .stopped)
    (hstate : ∀ f, st f = .ready → s.state f = .ready)
    (htimers : s.timers.set = [] → timers.set = [])
    (hpast : q.pastTimers = true → timers.set = []) (howes : s.Quiet → q.owes st = false) :
    s.Turn w q
      { s with state := st, timers := timers, phase := Function.update s.phase w q } := by
  subst hp
  refine ⟨rfl, rfl, fun _ => Or.inl, ?_, ?_, fun h => Or.inl (htimers h), Or.inl, hpast,
    fun h => absurd h hevents, ?_⟩
  · rw [hc, hcount]
  · rw [hflight]
  · rintro (hq | hq)
    · exact hq.goes rfl rfl hcount (howes hq) hstate hq.queue (htimers hq.timers) hq.events
        hq.pending hq.requested
    · exact absurd hq hstop

/-- A worker without a task goes on to a phase in which it has nothing in hand. -/
theorem Inv.goes (h : s.Inv) (hw : w < s.threads) (hp : s.phase w = p) (hc : p.counted = false)
    (hcount : q.counted = false) (hflight : q.inFlight = p.inFlight) (hpast : q.pastTimers = false)
    (hstop : q ≠ .stopped) (howes : q.owes s.state = false) : (s.setPhase w q).Inv := by
  refine h.turn hw (turn_idle hp hc hcount hflight ?_ hstop (fun _ => id) id ?_ fun _ => howes)
  · rintro rfl
    cases hpast
  · rw [hpast]
    exact fun h => Bool.noConfusion h

/-! ### The loop -/

theorem Inv.scan (h : s.Inv) (hw : w < s.threads) (hs : s.scan w = some t) : t.Inv := by
  unfold Stopping.scan at hs
  split at hs
  · rename_i hp
    dsimp only at hs
    split at hs
    · rename_i e he
      cases hs
      refine h.turn (q := .claimed e.task) hw (turn_busy hp ?_ rfl (by simp) rfl rfl Or.inl)
      intro hq
      rw [hq.queue] at he
      cases he
    · cases hs
      exact h.goes hw hp rfl rfl rfl rfl (by simp) rfl
  · cases hs

theorem Inv.swapIn {f : Nat} (h : s.Inv) (hw : w < s.threads) (hs : s.swapIn w f = some t) :
    t.Inv := by
  unfold Stopping.swapIn at hs
  split at hs
  · rename_i hp
    split at hs
    · cases hs
      exact h.turn hw (turn_task hw hp rfl rfl rfl)
    · cases hs
  · rename_i hp
    split at hs
    · cases hs
      exact h.turn hw (turn_task hw hp rfl rfl rfl)
    · cases hs
  · cases hs

theorem Inv.drop (h : s.Inv) (hw : w < s.threads) (hs : s.drop w = some t) : t.Inv := by
  unfold Stopping.drop at hs
  split at hs
  · rename_i hp
    split at hs
    · cases hs
      exact h.turn hw (turn_task hw hp rfl rfl rfl)
    · cases hs
  · cases hs

theorem Inv.swapOut {st : FiberState} (h : s.Inv) (hw : w < s.threads)
    (hs : s.swapOut w st = some t) : t.Inv := by
  unfold Stopping.swapOut at hs
  split at hs
  · rename_i hp
    cases hs
    exact h.turn hw (turn_task hw hp rfl rfl rfl)
  · cases hs

/-- A worker that counts as active has been counted. -/
theorem Inv.active_pos (h : s.Inv) (hw : w < s.threads) (hp : s.phase w = p)
    (hc : p.counted = true) : 0 < s.activeThreadCount := by
  rw [h.active]
  exact tally_pos hw (hp ▸ hc)

theorem Inv.countDown (h : s.Inv) (hw : w < s.threads) (hs : s.countDown w = some t) :
    t.Inv := by
  unfold Stopping.countDown at hs
  split at hs
  · rename_i hp
    cases hs
    have hcount : s.activeThreadCount - 1 + 1 = s.activeThreadCount + 0 :=
      Nat.sub_add_cancel (h.active_pos hw hp rfl)
    exact h.turn hw (turn_busy hp (not_quiet hw hp rfl) rfl (by simp) hcount rfl Or.inl)
  · rename_i hp
    cases hs
    have hcount : s.activeThreadCount - 1 + 1 = s.activeThreadCount + 0 :=
      Nat.sub_add_cancel (h.active_pos hw hp rfl)
    exact h.turn hw (turn_busy hp (not_quiet hw hp rfl) rfl (by simp) hcount rfl Or.inl)
  · cases hs

/-- While a worker is about to schedule something, something is left to do. -/
theorem not_quiet_of_owes (hw : w < s.threads) (hp : s.phase w = p)
    (howes : p.owes s.state = true) : ¬s.Quiet := by
  intro hq
  have hnone := hq.owes w hw
  rw [hp, howes] at hnone
  cases hnone

theorem Inv.settle (h : s.Inv) (hw : w < s.threads) (hs : s.settle w = some t) : t.Inv := by
  unfold Stopping.settle at hs
  split at hs
  · rename_i f hp
    split at hs
    · rename_i hready
      cases hs
      have hbusy := not_quiet_of_owes hw hp (by simp [StopPhase.owes, hready])
      exact h.turn hw (turn_busy hp hbusy rfl (by simp) rfl rfl Or.inl)
    · split at hs
      · cases hs
        exact h.goes hw hp rfl rfl rfl rfl (by simp) rfl
      · cases hs
        have hstate : ∀ g, Function.update s.state f .hold g = .ready → s.state g = .ready := by
          intro g hg
          by_cases hne : g = f
          · rw [hne, Function.update_self] at hg
            cases hg
          · rwa [Function.update_of_ne hne] at hg
        exact h.turn hw (turn_idle hp rfl rfl rfl (by simp) (by simp) hstate id nofun
          fun _ => rfl)
  · cases hs

theorem Inv.requeue (h : s.Inv) (hw : w < s.threads) (hs : s.requeue w = some t) : t.Inv := by
  unfold Stopping.requeue at hs
  split at hs
  · rename_i hp
    cases hs
    have hbusy := not_quiet_of_owes hw hp rfl
    exact h.turn hw (turn_busy hp hbusy rfl (by simp) rfl rfl Or.inl)
  · cases hs

theorem Inv.enterIdle (h : s.Inv) (hw : w < s.threads) (hs : s.enterIdle w = some t) :
    t.Inv := by
  unfold Stopping.enterIdle at hs
  split at hs
  · rename_i hp
    split at hs
    · cases hs
      exact h.goes hw hp rfl rfl rfl rfl (by simp) rfl
    · cases hs
      exact h.goes hw hp rfl rfl rfl rfl (by simp) rfl
  · cases hs

/-! ### `stopping` -/

theorem Inv.readTimer {now : UInt64} (h : s.Inv) (hw : w < s.threads) (hnow : now ≠ 0)
    (hs : s.readTimer w now = some t) : t.Inv := by
  unfold Stopping.readTimer at hs
  split at hs
  · rename_i hp
    have hset : (s.timers.getNextTimer now).1.set = s.timers.set := TimerManager.getNextTimer_set
    dsimp only at hs
    split at hs
    · rename_i hnone
      cases hs
      have hnil := hset.trans (TimerManager.getNextTimer_eq hnow hnone)
      exact h.turn hw (turn_idle hp rfl rfl rfl (by simp) (by simp) (fun _ => id) hset.trans
        (fun _ => hnil) fun _ => rfl)
    · cases hs
      exact h.turn hw (turn_idle hp rfl rfl rfl (by simp) (by simp) (fun _ => id) hset.trans nofun
        fun _ => rfl)
  · cases hs

theorem Inv.readEvents (h : s.Inv) (hw : w < s.threads) (hs : s.readEvents w = some t) :
    t.Inv := by
  unfold Stopping.readEvents at hs
  split at hs
  · rename_i hp
    have hnil := h.pastTimers w hw (hp ▸ rfl)
    split at hs
    · rename_i hzero
      cases hs
      refine h.turn (q := .eventsRead) hw ⟨rfl, rfl, fun _ => Or.inl, ?_, ?_, Or.inl, Or.inl,
        fun _ => hnil, fun _ => hzero, ?_⟩
      · rw [hp]
        rfl
      · rw [hp]
        rfl
      · rintro (hq | hq)
        · exact hq.goes rfl rfl rfl rfl (fun _ => id) hq.queue hq.timers hq.events hq.pending
            hq.requested
        · cases hq
    · cases hs
      exact h.goes hw hp rfl rfl rfl rfl (by simp) rfl
  · cases hs

/-- What the three reads have found is so at the third one. -/
theorem Inv.quiet (h : s.Inv) (hw : w < s.threads) (hp : s.phase w = .eventsRead)
    (hrequested : s.requested = true) (hqueue : s.queue = []) (hactive : s.activeThreadCount = 0)
    (howes : ∀ w < s.threads, (s.phase w).owes s.state = false) : s.Quiet := by
  have hzero : s.pendingEventCount = 0 := h.pastEvents w hw hp
  have hpending := h.pending
  refine ⟨hqueue, ?_, howes, h.pastTimers w hw (hp ▸ rfl), by omega, hzero, hrequested⟩
  apply tally_eq_zero.mp
  rw [← h.active, hactive]

theorem Inv.readQueue (h : s.Inv) (hw : w < s.threads) (hguard : StopGuard s (.readQueue w))
    (hs : s.readQueue w = some t) : t.Inv := by
  unfold Stopping.readQueue at hs
  split at hs
  · rename_i hp
    split at hs
    · rename_i hstopping
      cases hs
      simp only [schedulerStopping, Bool.and_eq_true, List.isEmpty_iff, decide_eq_true_eq]
        at hstopping
      obtain ⟨⟨hrequested, hqueue⟩, hactive⟩ := hstopping
      have hq := h.quiet hw hp hrequested hqueue hactive (hguard hrequested hqueue hactive)
      refine h.turn (q := .stopped) hw ⟨rfl, rfl, fun _ => Or.inl, ?_, ?_, Or.inl, Or.inl,
        nofun, nofun, ?_⟩
      · rw [hp]
        rfl
      · rw [hp]
        rfl
      · intro _
        exact hq.goes rfl rfl rfl rfl (fun _ => id) hqueue hq.timers hq.events hq.pending
          hrequested
    · cases hs
      exact h.goes hw hp rfl rfl rfl rfl (by simp) rfl
  · cases hs

/-! ### The idle fiber -/

theorem Inv.endIdle (h : s.Inv) (hw : w < s.threads) (hs : s.endIdle w = some t) : t.Inv := by
  unfold Stopping.endIdle at hs
  split at hs
  · rename_i hp
    cases hs
    have hq := h.nothingLeft w hw (Or.inl hp)
    refine h.turn (q := .scan) hw ⟨rfl, rfl, fun _ _ => Or.inr hp, ?_, ?_, Or.inl, Or.inl,
      nofun, nofun, ?_⟩
    · rw [hp]
      rfl
    · rw [hp]
      rfl
    · intro _
      exact hq.goes rfl rfl rfl rfl (fun _ => id) hq.queue hq.timers hq.events hq.pending
        hq.requested
  · cases hs

theorem Inv.wake (h : s.Inv) (hw : w < s.threads) (hs : s.wake w = some t) : t.Inv := by
  unfold Stopping.wake at hs
  split at hs
  · rename_i hp
    cases hs
    exact h.goes hw hp rfl rfl rfl rfl (by simp) rfl
  · cases hs

theorem Inv.collect {now : UInt64} {addr : Nat} (h : s.Inv) (hw : w < s.threads)
    (hs : s.collect w now addr = some t) : t.Inv := by
  unfold Stopping.collect at hs
  split at hs
  · rename_i hp
    generalize hr : s.timers.listExpiredCb now addr = r at hs
    cases hs
    refine h.turn hw (turn_idle hp rfl rfl rfl (by simp) (by simp) (fun _ => id) ?_ nofun ?_)
    · intro hnil
      rw [TimerManager.listExpiredCb_nil hnil] at hr
      cases hr
      exact hnil
    · intro hq
      rw [TimerManager.listExpiredCb_nil hq.timers] at hr
      cases hr
      rfl
  · cases hs

theorem Inv.scheduleExpired (h : s.Inv) (hw : w < s.threads) (hs : s.scheduleExpired w = some t) :
    t.Inv := by
  unfold Stopping.scheduleExpired at hs
  split at hs
  · rename_i n hp
    cases hs
    cases n with
    | zero =>
      rw [List.replicate_zero, List.append_nil]
      exact h.goes hw hp rfl rfl rfl rfl (by simp) rfl
    | succ n =>
      have hbusy := not_quiet_of_owes hw hp rfl
      exact h.turn hw (turn_busy hp hbusy rfl (by simp) rfl rfl Or.inl)
  · cases hs

theorem Inv.leaveIdle (h : s.Inv) (hw : w < s.threads) (hs : s.leaveIdle w = some t) :
    t.Inv := by
  unfold Stopping.leaveIdle at hs
  split at hs
  · rename_i hp
    cases hs
    exact h.goes hw hp rfl rfl rfl rfl (by simp) rfl
  · cases hs

/-! ### Events -/

theorem Inv.trigger (h : s.Inv) (hw : w < s.threads) (hs : s.trigger w = some t) : t.Inv := by
  unfold Stopping.trigger at hs
  split at hs
  · cases hs
  · rename_i hevents
    have hbusy : ¬s.Quiet := fun hq => hevents hq.events
    have hcount : s.pendingEventCount + s.events + 0 =
        s.pendingEventCount + (s.events - 1) + 1 := by omega
    split at hs
    · rename_i hp
      cases hs
      exact h.turn hw (turn_busy hp hbusy rfl (by simp) rfl hcount Or.inl)
    · rename_i hp
      cases hs
      exact h.turn hw (turn_busy hp hbusy rfl (by simp) rfl hcount Or.inl)
    · cases hs

/-- An event in hand has been counted. -/
theorem Inv.pending_pos (h : s.Inv) (hw : w < s.threads) (hp : s.phase w = p)
    (hf : p.inFlight = true) : 0 < s.pendingEventCount := by
  rw [h.pending]
  exact Nat.add_pos_right _ (tally_pos hw (hp ▸ hf))

theorem Inv.scheduleTriggered {j : Job} (h : s.Inv) (hw : w < s.threads)
    (hs : s.scheduleTriggered w j = some t) : t.Inv := by
  unfold Stopping.scheduleTriggered at hs
  split at hs
  · rename_i o hp
    cases hs
    have hpos := h.pending_pos hw hp rfl
    have hbusy : ¬s.Quiet := fun hq => Nat.ne_of_gt hpos hq.pending
    refine h.turn hw (turn_busy hp hbusy rfl (by simp) ?_ rfl Or.inl)
    cases o <;> rfl
  · cases hs

theorem Inv.countTriggered (h : s.Inv) (hw : w < s.threads) (hs : s.countTriggered w = some t) :
    t.Inv := by
  unfold Stopping.countTriggered at hs
  split at hs
  · rename_i f hp
    cases hs
    have hpos := h.pending_pos hw hp rfl
    have hcount : s.pendingEventCount - 1 + s.events + 1 =
        s.pendingEventCount + s.events + 0 := by omega
    exact h.turn hw (turn_busy hp (not_quiet hw hp rfl) rfl (by simp) rfl hcount
      fun hzero => Or.inl (by rw [hzero]))
  · rename_i hp
    cases hs
    have hpos := h.pending_pos hw hp rfl
    have hbusy : ¬s.Quiet := fun hq => Nat.ne_of_gt hpos hq.pending
    have hcount : s.pendingEventCount - 1 + s.events + 1 =
        s.pendingEventCount + s.events + 0 := by omega
    exact h.turn hw (turn_busy hp hbusy rfl (by simp) rfl hcount
      fun hzero => Or.inl (by rw [hzero]))
  · cases hs

theorem Inv.countEvent (h : s.Inv) (hw : w < s.threads) (hguard : StopGuard s (.countEvent w))
    (hs : s.countEvent w = some t) : t.Inv := by
  unfold Stopping.countEvent at hs
  split at hs
  · rename_i hp
    cases hs
    have hcount : s.pendingEventCount + 1 + s.events + 0 =
        s.pendingEventCount + s.events + 1 := by omega
    exact h.turn hw (turn_busy hp (not_quiet hw hp rfl) rfl (by simp) rfl hcount
      fun _ => Or.inr hguard)
  · cases hs

theorem Inv.registerEvent (h : s.Inv) (hw : w < s.threads) (hs : s.registerEvent w = some t) :
    t.Inv := by
  unfold Stopping.registerEvent at hs
  split at hs
  · rename_i hp
    cases hs
    exact h.turn hw (turn_busy hp (not_quiet hw hp rfl) rfl (by simp) rfl rfl Or.inl)
  · cases hs

theorem Inv.uncountEvent (h : s.Inv) (hw : w < s.threads) (hs : s.uncountEvent w = some t) :
    t.Inv := by
  unfold Stopping.uncountEvent at hs
  split at hs
  · cases hs
  · rename_i hevents
    split at hs
    · rename_i hp
      cases hs
      have hpending := h.pending
      have hcount : s.pendingEventCount - 1 + s.events + 0 =
          s.pendingEventCount + (s.events - 1) + 0 := by omega
      exact h.turn hw (turn_busy hp (not_quiet hw hp rfl) rfl (by simp) rfl hcount
        fun hzero => Or.inl (by rw [hzero]))
    · cases hs

theorem Inv.removeEvent (h : s.Inv) (hw : w < s.threads) (hs : s.removeEvent w = some t) :
    t.Inv := by
  unfold Stopping.removeEvent at hs
  split at hs
  · rename_i hp
    cases hs
    exact h.turn hw (turn_task hw hp rfl rfl rfl)
  · cases hs

/-! ### Tasks and outside threads -/

theorem Inv.taskSchedule {es : List FiberAndThread} (h : s.Inv) (hw : w < s.threads)
    (hs : s.taskSchedule w es = some t) : t.Inv := by
  unfold Stopping.taskSchedule at hs
  split at hs
  · rename_i f hp
    cases hs
    have hturn : s.Turn w (.running f) { s with
        queue := s.queue ++ es
        phase := Function.update s.phase w (.running f) } := turn_task hw hp rfl rfl rfl
    have hinv := h.turn hw hturn
    rwa [← hp, Function.update_eq_self] at hinv
  · cases hs

/-- Timers that are used as the guard asks. -/
theorem timers_call {a : TimerAction} {m : TimerManager}
    (hguard : a.adds = true → ∀ w < s.threads, (s.phase w).pastTimers = false)
    (hcall : s.timers.call a = some m) (hnil : s.timers.set = []) :
    m.set = [] ∨ ∀ w < s.threads, (s.phase w).pastTimers = false := by
  by_cases hadds : a.adds = true
  · exact Or.inr (hguard hadds)
  · exact Or.inl (TimerManager.call_nil hnil (Bool.eq_false_iff.mpr hadds) hcall)

theorem Inv.taskTimer {a : TimerAction} (h : s.Inv) (hw : w < s.threads)
    (hguard : StopGuard s (.taskTimer w a)) (hs : s.taskTimer w a = some t) : t.Inv := by
  unfold Stopping.taskTimer at hs
  split at hs
  · rename_i f hp
    obtain ⟨m, hcall, rfl⟩ := Option.map_eq_some_iff.mp hs
    refine h.turn (q := .running f) hw ⟨rfl, ?_, fun _ => Or.inl, ?_, ?_,
      timers_call hguard hcall, Or.inl, nofun, nofun, ?_⟩
    · rw [← hp, Function.update_eq_self]
    · rw [hp]
    · rw [hp]
    · rintro (hq | hq)
      · exact absurd hq (not_quiet hw hp rfl)
      · cases hq
  · cases hs

/-- An outside thread schedules, or uses the timers as the guard asks. -/
theorem Inv.outside {queue : List FiberAndThread} {m : TimerManager} (h : s.Inv)
    (htimers : s.timers.set = [] → m.set = [] ∨ ∀ w < s.threads, (s.phase w).pastTimers = false)
    (hquiet : s.Quiet → queue = [] ∧ m.set = []) :
    ({ s with queue := queue, timers := m } : Stopping).Inv := by
  refine ⟨h.active, h.pending, ?_, h.pastEvents, ?_⟩
  · intro w hw hpast
    refine (htimers (h.pastTimers w hw hpast)).resolve_right fun hnone => ?_
    exact Bool.noConfusion (hpast.symm.trans (hnone w hw))
  · intro w hw hstop
    have hq := h.nothingLeft w hw hstop
    obtain ⟨hqueue, hset⟩ := hquiet hq
    exact ⟨hqueue, hq.inactive, hq.owes, hset, hq.events, hq.pending, hq.requested⟩

/-! ## Runs -/

theorem Inv.initial (threads : Nat) (timers : TimerManager) :
    ({ threads, timers } : Stopping).Inv := by
  have hscan : ∀ p : StopPhase → Bool, p .scan = false →
      0 = tally p (fun _ => .scan) threads :=
    fun p hp => (tally_eq_zero.mpr fun _ _ => hp).symm
  refine ⟨hscan _ rfl, (hscan StopPhase.inFlight rfl).trans (Nat.zero_add _).symm,
    fun _ _ hpast => Bool.noConfusion hpast, fun _ _ hpast => ?_, fun _ _ hstop => ?_⟩
  · cases hpast
  · rcases hstop with hstop | hstop <;> cases hstop

theorem Inv.step {a : StopAction} (h : s.Inv) (hguard : StopGuard s a) (hs : s.step a = some t) :
    t.Inv := by
  unfold Stopping.step at hs
  split at hs
  · cases hs
  rename_i hworker
  have hlt : ∀ w, a.worker = some w → w < s.threads := by
    intro w hw
    rw [hw] at hworker
    simpa using hworker
  cases a with
  | schedule es =>
    dsimp only at hs
    split at hs
    · cases hs
    · rename_i hrequested
      cases hs
      exact h.outside Or.inl fun hq => absurd hq.requested hrequested
  | timer a =>
    dsimp only at hs
    split at hs
    · cases hs
    · rename_i hadds
      obtain ⟨m, hcall, rfl⟩ := Option.map_eq_some_iff.mp hs
      apply h.outside (timers_call hguard hcall)
      intro hq
      rw [hq.requested, Bool.true_and, Bool.not_eq_true] at hadds
      exact ⟨hq.queue, TimerManager.call_nil hq.timers hadds hcall⟩
  | stop =>
    cases hs
    refine ⟨h.active, h.pending, h.pastTimers, h.pastEvents, fun w hw hstop => ?_⟩
    have hq := h.nothingLeft w hw hstop
    exact ⟨hq.queue, hq.inactive, hq.owes, hq.timers, hq.events, hq.pending, rfl⟩
  | scan w => exact h.scan (hlt w rfl) hs
  | swapIn w f => exact h.swapIn (hlt w rfl) hs
  | drop w => exact h.drop (hlt w rfl) hs
  | swapOut w st => exact h.swapOut (hlt w rfl) hs
  | countDown w => exact h.countDown (hlt w rfl) hs
  | settle w => exact h.settle (hlt w rfl) hs
  | requeue w => exact h.requeue (hlt w rfl) hs
  | enterIdle w => exact h.enterIdle (hlt w rfl) hs
  | readTimer w now => exact h.readTimer (hlt w rfl) hguard hs
  | readEvents w => exact h.readEvents (hlt w rfl) hs
  | readQueue w => exact h.readQueue (hlt w rfl) hguard hs
  | endIdle w => exact h.endIdle (hlt w rfl) hs
  | wake w => exact h.wake (hlt w rfl) hs
  | collect w now addr => exact h.collect (hlt w rfl) hs
  | scheduleExpired w => exact h.scheduleExpired (hlt w rfl) hs
  | leaveIdle w => exact h.leaveIdle (hlt w rfl) hs
  | trigger w => exact h.trigger (hlt w rfl) hs
  | scheduleTriggered w j => exact h.scheduleTriggered (hlt w rfl) hs
  | countTriggered w => exact h.countTriggered (hlt w rfl) hs
  | countEvent w => exact h.countEvent (hlt w rfl) hguard hs
  | registerEvent w => exact h.registerEvent (hlt w rfl) hs
  | uncountEvent w => exact h.uncountEvent (hlt w rfl) hs
  | removeEvent w => exact h.removeEvent (hlt w rfl) hs
  | taskSchedule w es => exact h.taskSchedule (hlt w rfl) hs
  | taskTimer w a => exact h.taskTimer (hlt w rfl) hguard hs

/-- `threads` workers without a timer. -/
def idleFrom (threads : Nat) : Stopping :=
  { threads, timers := { timers := fun _ => { addr := 0 }, previous := 0 } }

/-- On any number of workers, once `stopping` has returned true in a run whose steps meet the
    guard, nothing is left to do, and nothing comes later. -/
theorem stopping_nothingLeft (h : stopMachine.Reach StopGuard s) : s.NothingLeft := by
  refine (h.invariant (P := Inv) ?_ fun s a t hs hg hstep => hs.step hg hstep).nothingLeft
  rintro s ⟨threads, previous, rfl⟩
  exact Inv.initial threads _

/-- A task on worker 0 adds a timer and an event and ends; `stop` is called; worker 1 runs the
    callback of the timer and the task of the event; then both workers end. -/
def stoppedAfterTasks : List StopAction :=
  [.schedule [⟨.cb, none⟩], .scan 0, .swapIn 0 5,
    .taskTimer 0 (.addTimer 10 (some (.fn 1)) false 100 20), .countEvent 0, .registerEvent 0,
    .scan 1, .enterIdle 1, .readTimer 1 101, .swapOut 0 .term, .countDown 0, .settle 0, .scan 0,
    .enterIdle 0, .stop, .wake 1, .collect 1 200 30, .scheduleExpired 1, .trigger 1,
    .scheduleTriggered 1 .cb, .countTriggered 1, .leaveIdle 1, .scan 1, .swapIn 1 6,
    .swapOut 1 .term, .countDown 1, .settle 1, .scan 1, .swapIn 1 7, .swapOut 1 .term,
    .countDown 1, .settle 1, .scan 1, .enterIdle 1, .readTimer 1 201, .readEvents 1, .readQueue 1,
    .endIdle 1, .readTimer 0 202, .readEvents 0, .readQueue 0, .endIdle 0]

theorem stopping_nothingLeft_afterTasks :
    ∃ s, stopMachine.run (idleFrom 2) stoppedAfterTasks = some s ∧ s.idleTerm 0 = true ∧
      s.idleTerm 1 = true ∧ s.NothingLeft := by
  have hmeets : stopMachine.Meets StopGuard (idleFrom 2) stoppedAfterTasks := by decide +kernel
  have hrun : (stopMachine.run (idleFrom 2) stoppedAfterTasks).any
      (fun s => s.idleTerm 0 && s.idleTerm 1) = true := by decide +kernel
  obtain ⟨s, hs, hterm⟩ := (Option.any_eq_true _ _).mp hrun
  rw [Bool.and_eq_true] at hterm
  exact ⟨s, hs, hterm.1, hterm.2,
    stopping_nothingLeft (.of_run stoppedAfterTasks (.init ⟨2, 0, rfl⟩) hmeets hs)⟩

/-- Worker 1 has run a fiber that yielded, and no longer counts as active; it has not scheduled the
    fiber again when `stopping` returns true on worker 0. -/
def stoppedBeforeReady : List StopAction :=
  [.schedule [⟨.cb, none⟩], .scan 1, .swapIn 1 0, .swapOut 1 .ready, .countDown 1, .scan 0,
    .enterIdle 0, .stop, .readTimer 0 1, .readEvents 0, .readQueue 0]

theorem stopped_before_ready : ¬∀ s, stopMachine.Reachable s → s.NothingLeft := by
  intro h
  have hquiet := h _ (.of_run stoppedBeforeReady (s := idleFrom 2) ⟨2, 0, rfl⟩ rfl) 0 (by decide)
    (Or.inl rfl)
  have howes := hquiet.owes 1 (by decide)
  cases howes

end Stopping

end CppServerFramework.Async

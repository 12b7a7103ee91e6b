import CppServerFramework.Async.TimerProps

/-!
# Calls on dead timers

A timer that was cancelled, or that was collected and is not recurring, has no function left and
is in no set.  `cancel` and `refresh` ask for the function first; `reset` asks before that whether
the period is to change at all.
-/

namespace CppServerFramework.Async

/-- A call on a timer that exists. -/
inductive TimerCall where
  | cancel
  | refresh (now : UInt64)
  | reset (ms : UInt64) (fromNow : Bool) (now : UInt64)
  deriving DecidableEq, Repr

namespace TimerManager

/-- The timers behind the call, its answer, and whether `onTimerInsertedAtFront` is called. -/
def answer (m : TimerManager) (i : Nat) : TimerCall → Option (TimerManager × Bool × Bool)
  | .cancel => (m.cancel i).map fun (m, ok) => (m, ok, false)
  | .refresh now => some ((m.refresh i now).1, (m.refresh i now).2, false)
  | .reset ms fromNow now => some (m.reset i ms fromNow now)

/-- The answer is false, nobody is woken, and the set, the due times and the periods stay. -/
structure Refused (m : TimerManager) (i : Nat) (c : TimerCall) : Prop where
  refused : (m.answer i c).map Prod.snd = some (false, false)
  set : ∀ x ∈ m.answer i c, x.1.set = m.set
  timers : ∀ x ∈ m.answer i c, ∀ j, (x.1.timers j).next = (m.timers j).next ∧
    (x.1.timers j).ms = (m.timers j).ms

/-- A `reset` to the period that the timer has, and not from now. -/
def KeepsPeriod (m : TimerManager) (i : Nat) : TimerCall → Prop
  | .reset ms fromNow _ => ms = (m.timers i).ms ∧ fromNow = false
  | _ => False

variable {m : TimerManager} {i : Nat}

theorem Refused.of_answer {c : TimerCall} (h : m.answer i c = some (m, false, false)) :
    m.Refused i c := by
  refine ⟨by rw [h]; rfl, fun x hx => ?_, fun x hx j => ?_⟩ <;>
    · rw [h, Option.mem_some] at hx
      subst hx
      simp

/-- A timer without a function refuses every call but the one that leaves its period. -/
theorem refused_iff (hcb : (m.timers i).cb = none) (c : TimerCall) :
    m.Refused i c ↔ ¬m.KeepsPeriod i c := by
  cases c with
  | cancel => exact ⟨fun _ => id, fun _ => .of_answer (by simp [answer, cancel, hcb])⟩
  | refresh now => exact ⟨fun _ => id, fun _ => .of_answer (by simp [answer, refresh, hcb])⟩
  | reset ms fromNow now =>
    change _ ↔ ¬(ms = (m.timers i).ms ∧ fromNow = false)
    constructor
    · intro h hkeeps
      have hanswer := h.refused
      rw [answer, reset, if_pos hkeeps] at hanswer
      cases hanswer
    · intro hkeeps
      exact .of_answer (by rw [answer, reset, if_neg hkeeps, if_pos hcb])

end TimerManager

/-- The timer was cancelled, or it was collected and is not recurring. -/
def TimerRun.Dead (r : TimerRun) (i : Nat) : Prop :=
  .cancelled i ∈ r.history ∨ i ∈ r.collected ∧ (r.manager.timers i).recurring = false

/-- A dead timer has lost its function, whatever has happened since. -/
theorem TimerRun.Inv.cb_of_dead {r : TimerRun} {i : Nat} (h : r.Inv) (hdead : r.Dead i) :
    (r.manager.timers i).cb = none := by
  have hout : i < r.manager.count ∧ i ∉ r.manager.set := by
    rcases hdead with hcancelled | ⟨hcollected, hrec⟩
    · exact h.out i hcancelled
    · exact ⟨h.bound i hcollected, h.spent i hcollected hrec⟩
  by_contra hcb
  exact hout.2 (h.manager.active i hout.1 hcb)

/-- In every state of every run the calls that a dead timer does not refuse are those of `reset`
    that leave its period and are not from now. -/
theorem dead_refused_iff (r : TimerRun) (h : timerMachine.Reachable r) (i : Nat)
    (hdead : r.Dead i) (c : TimerCall) : r.manager.Refused i c ↔ ¬r.manager.KeepsPeriod i c :=
  TimerManager.refused_iff ((TimerRun.inv_of_reachable h).cb_of_dead hdead) c

/-- A timer that was collected, and another that was cancelled, some calls later. -/
theorem dead_refused_later :
    ∃ r, timerMachine.Reachable r ∧ (r.Dead 0 ∧ r.manager.Refused 0 (.reset 7 true 5000030)) ∧
      r.Dead 1 ∧ r.manager.Refused 1 .cancel := by
  have hrun : ((timerMachine.run ⟨{ timers := fun _ => { addr := 0 }, previous := 5000000 }, []⟩
      [.addTimer 10 (some (.fn 1)) false 5000000 20, .addTimer 10 (some (.fn 2)) true 5000000 21,
        .listExpiredCb 5000010 30, .cancel 1, .refresh 0 5000020, .getNextTimer 5000020]).any
          fun r => (r.collected = [0, 1] ∧ .cancelled 1 ∈ r.history) ∧
            (r.manager.timers 0).recurring = false) = true := by decide
  obtain ⟨r, hr, hr'⟩ := (Option.any_eq_true _ _).mp hrun
  obtain ⟨⟨hcollected, hcancelled⟩, hrec⟩ := of_decide_eq_true hr'
  have hreach : timerMachine.Reachable r := Machine.Reachable.of_run _ ⟨5000000, rfl⟩ hr
  have hzero : r.Dead 0 := Or.inr ⟨by simp [hcollected], hrec⟩
  have hone : r.Dead 1 := Or.inl hcancelled
  refine ⟨r, hreach, ⟨hzero, (dead_refused_iff r hreach 0 hzero _).mpr ?_⟩, hone,
    (dead_refused_iff r hreach 1 hone _).mpr id⟩
  simp [TimerManager.KeepsPeriod]

/-- A cancelled timer is reset to the period that it had, and the answer is true. -/
theorem dead_reset_succeeds :
    ∃ r, timerMachine.Reachable r ∧ r.Dead 0 ∧
      (r.manager.answer 0 (.reset 10 false 5000001)).map Prod.snd = some (true, false) ∧
      ¬r.manager.Refused 0 (.reset 10 false 5000001) := by
  have hrun : ((timerMachine.run ⟨{ timers := fun _ => { addr := 0 }, previous := 5000000 }, []⟩
      [.addTimer 10 (some (.fn 1)) false 5000000 20, .cancel 0]).any
        fun r => .cancelled 0 ∈ r.history ∧
          (r.manager.answer 0 (.reset 10 false 5000001)).map Prod.snd = some (true, false)) =
      true := by decide
  obtain ⟨r, hr, hr'⟩ := (Option.any_eq_true _ _).mp hrun
  obtain ⟨hcancelled, hanswer⟩ := of_decide_eq_true hr'
  refine ⟨r, Machine.Reachable.of_run _ ⟨5000000, rfl⟩ hr, Or.inl hcancelled, hanswer, fun h => ?_⟩
  rw [h.refused] at hanswer
  cases hanswer

end CppServerFramework.Async

import Mathlib.Algebra.Ring.Nat
import CppServerFramework.Async.TimerProps

/-!
# A clock that goes back

`detectClockRollover` is to notice a clock that went back by more than an hour, and
`listExpiredCb` then collects every timer.  The hour is subtracted from `m_previous`, which wraps
in the first hour after the epoch.
-/

namespace CppServerFramework.Async

/-- A call of `listExpiredCb` that asks `detectClockRollover`: `m_previous` before it, the
    reading, the answer, and the timers it collects, as they were. -/
structure RolloverCall where
  previous : UInt64
  now : UInt64
  rollover : Bool
  due : List Timer
  deriving DecidableEq, Repr

/-- The answer is that the clock went back by more than an hour. -/
def RolloverCall.Exact (c : RolloverCall) : Prop :=
  c.rollover = true ↔ c.now.toNat + 60 * 60 * 1000 < c.previous.toNat

def RolloverCall.OnTime (c : RolloverCall) : Prop := ∀ t ∈ c.due, t.next ≤ c.now

/-- The timers, with the first `m_previous` and every reading of `listExpiredCb`, and the calls
    that found timers. -/
structure ClockRun where
  manager : TimerManager
  readings : List UInt64
  calls : List RolloverCall := []

/-- The hour does not wrap, or it wraps to a time that is not behind `now`. -/
def HourFits (previous now : UInt64) : Prop :=
  60 * 60 * 1000 ≤ previous.toNat ∨ 2 ^ 64 + previous.toNat ≤ now.toNat + 60 * 60 * 1000

instance (previous now : UInt64) : Decidable (HourFits previous now) :=
  inferInstanceAs (Decidable (_ ∨ _))

namespace ClockRun

def collect (r : ClockRun) (now : UInt64) (addr : Nat) : ClockRun where
  manager := (r.manager.listExpiredCb now addr).1
  readings := r.readings ++ [now]
  calls := if r.manager.set = [] then r.calls else r.calls ++ [{
    previous := r.manager.previous
    now
    rollover := r.manager.detectClockRollover now
    due := (r.manager.expired now addr).map r.manager.timers }]

/-- What is said of a run: each answer is right, and where the clock never goes back no timer is
    collected before its due time. -/
structure Punctual (r : ClockRun) : Prop where
  exact : ∀ c ∈ r.calls, c.Exact
  onTime : r.readings.Pairwise (· ≤ ·) → ∀ c ∈ r.calls, c.OnTime

/-- The condition on a step. -/
def Fits (r : ClockRun) : TimerAction → Prop
  | .listExpiredCb now _ => r.manager.set ≠ [] → HourFits r.manager.previous now
  | _ => True

end ClockRun

/-- The operations of the timers in any order, with any readings. -/
def clockMachine : Machine ClockRun TimerAction where
  init r := ∃ previous, r = ⟨{ timers := fun _ => { addr := 0 }, previous }, [previous], []⟩
  step r
    | .listExpiredCb now addr =>
      if r.manager.Fresh addr then some (r.collect now addr) else none
    | a => (timerMachine.step ⟨r.manager, []⟩ a).map fun t => { r with manager := t.manager }

/-! ## `m_previous` -/

namespace TimerManager

variable {m m' : TimerManager} {i : Nat} {now : UInt64} {addr : Nat}

theorem previous_addTimer {ms : UInt64} {cb : Option TimerCallback} {recurring : Bool} :
    (m.addTimer ms cb recurring now addr).1.previous = m.previous := rfl

theorem previous_cancel {ok : Bool} (h : m.cancel i = some (m', ok)) :
    m'.previous = m.previous := by
  rw [cancel] at h
  split at h
  · cases h
    rfl
  · obtain ⟨_, -, heq⟩ := Option.map_eq_some_iff.mp h
    cases heq
    rfl

theorem previous_refresh : (m.refresh i now).1.previous = m.previous := by
  rw [refresh]
  split
  · rfl
  · split <;> rfl

theorem previous_reset {ms : UInt64} {fromNow : Bool} :
    (m.reset i ms fromNow now).1.previous = m.previous := by
  rw [reset]
  split
  · rfl
  · split
    · rfl
    · split <;> rfl

theorem previous_collect (is : List Nat) (acc : TimerManager × List (Option TimerCallback)) :
    (is.foldl (collectOne now) acc).1.previous = acc.1.previous := by
  induction is generalizing acc with
  | nil => rfl
  | cons i is ih =>
    rw [List.foldl_cons, ih, collectOne]
    simp only
    split <;> rfl

theorem previous_listExpiredCb : (m.listExpiredCb now addr).1.previous =
    if m.set = [] then m.previous else now := by
  rw [listExpiredCb]
  split
  · rfl
  · rw [previous_collect]

/-- The test, as integers. -/
theorem detectClockRollover_iff : m.detectClockRollover now = true ↔
    if 60 * 60 * 1000 ≤ m.previous.toNat then now.toNat + 60 * 60 * 1000 < m.previous.toNat
    else now.toNat + 60 * 60 * 1000 < 2 ^ 64 + m.previous.toNat := by
  rw [detectClockRollover, decide_eq_true_iff, UInt64.lt_iff_toNat_lt, UInt64.toNat_sub]
  have hprevious := m.previous.toNat_lt
  have hnow := now.toNat_lt
  have hhour : (60 * 60 * 1000 : UInt64).toNat = 60 * 60 * 1000 := by decide
  rw [hhour]
  split <;> omega

/-- The answer is right exactly where the hour fits. -/
theorem rollover_exact_iff_hourFits :
    (m.detectClockRollover now = true ↔ now.toNat + 60 * 60 * 1000 < m.previous.toNat) ↔
      HourFits m.previous now := by
  rw [detectClockRollover_iff, HourFits]
  have hprevious := m.previous.toNat_lt
  split <;> omega

/-- A reading that is not behind `m_previous` is no rollover. -/
theorem detectClockRollover_eq_false (hfits : HourFits m.previous now) (hle : m.previous ≤ now) :
    m.detectClockRollover now = false := by
  rw [Bool.eq_false_iff, Ne, rollover_exact_iff_hourFits.mpr hfits]
  rw [UInt64.le_iff_toNat_le] at hle
  omega

end TimerManager

/-! ## Runs -/

namespace ClockRun

variable {r s : ClockRun} {a : TimerAction}

/-- The answers and the collections so far are right, and `m_previous` is one of the readings. -/
structure Inv (r : ClockRun) : Prop extends r.Punctual where
  previous : r.manager.previous ∈ r.readings

theorem Inv.collect (h : r.Inv) (now : UInt64) (addr : Nat)
    (hfits : r.manager.set ≠ [] → HourFits r.manager.previous now) : (r.collect now addr).Inv where
  exact c hc := by
    rw [ClockRun.collect] at hc
    split at hc
    · exact h.exact c hc
    · rename_i hset
      rcases List.mem_append.mp hc with hc | hc
      · exact h.exact c hc
      · rw [List.mem_singleton.mp hc]
        exact TimerManager.rollover_exact_iff_hourFits.mpr (hfits hset)
  onTime hreadings c hc := by
    rw [ClockRun.collect] at hreadings hc
    obtain ⟨hbefore, -, hlast⟩ := List.pairwise_append.mp hreadings
    simp only at hc
    split at hc
    · exact h.onTime hbefore c hc
    · rename_i hset
      rcases List.mem_append.mp hc with hc | hc
      · exact h.onTime hbefore c hc
      · rw [List.mem_singleton.mp hc]
        intro t ht
        obtain ⟨i, hi, rfl⟩ := List.mem_map.mp ht
        have hle : r.manager.previous ≤ now :=
          hlast _ h.previous _ (List.mem_singleton.mpr rfl)
        exact TimerManager.next_le_of_mem_expired
          (TimerManager.detectClockRollover_eq_false (hfits hset) hle) hi
  previous := by
    rw [ClockRun.collect]
    simp only [TimerManager.previous_listExpiredCb]
    split
    · exact List.mem_append_left _ h.previous
    · exact List.mem_append_right _ (List.mem_singleton.mpr rfl)

/-- A step of another operation keeps `m_previous`. -/
theorem previous_step {t : TimerRun} (ha : ∀ now addr, a ≠ .listExpiredCb now addr)
    (hs : timerMachine.step ⟨r.manager, []⟩ a = some t) :
    t.manager.previous = r.manager.previous := by
  cases a with
  | addTimer ms cb recurring now addr =>
    obtain ⟨-, heq⟩ := (Option.ite_none_right_eq_some ..).mp hs
    cases heq
    exact TimerManager.previous_addTimer
  | addConditionTimer ms cb weakCond recurring now addr =>
    obtain ⟨-, heq⟩ := (Option.ite_none_right_eq_some ..).mp hs
    cases heq
    exact TimerManager.previous_addTimer
  | cancel i =>
    obtain ⟨-, hcancel⟩ := (Option.ite_none_right_eq_some ..).mp hs
    obtain ⟨⟨m, ok⟩, hm, heq⟩ := Option.map_eq_some_iff.mp hcancel
    cases heq
    exact TimerManager.previous_cancel hm
  | refresh i now =>
    obtain ⟨-, heq⟩ := (Option.ite_none_right_eq_some ..).mp hs
    cases heq
    exact TimerManager.previous_refresh
  | reset i ms fromNow now =>
    obtain ⟨-, heq⟩ := (Option.ite_none_right_eq_some ..).mp hs
    cases heq
    exact TimerManager.previous_reset
  | getNextTimer now =>
    cases hs
    rw [TimerManager.getNextTimer_fst]
  | listExpiredCb now addr => exact absurd rfl (ha now addr)

theorem step_of_not_collect (ha : ∀ now addr, a ≠ .listExpiredCb now addr)
    (hs : clockMachine.step r a = some s) :
    ∃ m, s = { r with manager := m } ∧ m.previous = r.manager.previous := by
  have hmap : (timerMachine.step ⟨r.manager, []⟩ a).map (fun t => { r with manager := t.manager }) =
      some s := by
    cases a with
    | listExpiredCb now addr => exact absurd rfl (ha now addr)
    | _ => exact hs
  obtain ⟨t, ht, rfl⟩ := Option.map_eq_some_iff.mp hmap
  exact ⟨t.manager, rfl, previous_step ha ht⟩

theorem Inv.step (h : r.Inv) (hfits : r.Fits a) (hs : clockMachine.step r a = some s) :
    s.Inv := by
  by_cases ha : ∀ now addr, a ≠ .listExpiredCb now addr
  · obtain ⟨m, rfl, hprevious⟩ := step_of_not_collect ha hs
    exact ⟨⟨h.exact, h.onTime⟩, hprevious ▸ h.previous⟩
  · push Not at ha
    obtain ⟨now, addr, rfl⟩ := ha
    obtain ⟨-, heq⟩ := (Option.ite_none_right_eq_some ..).mp hs
    cases heq
    exact h.collect now addr hfits

/-- A step that does not meet the condition leaves a wrong answer. -/
theorem fits_of_punctual (hs : clockMachine.step r a = some s) (h : s.Punctual) : r.Fits a := by
  cases a with
  | listExpiredCb now addr =>
    intro hset
    obtain ⟨-, heq⟩ := (Option.ite_none_right_eq_some ..).mp hs
    cases heq
    have hcall : ⟨r.manager.previous, now, r.manager.detectClockRollover now,
        (r.manager.expired now addr).map r.manager.timers⟩ ∈ (r.collect now addr).calls := by
      rw [collect, if_neg hset]
      exact List.mem_append_right _ (List.mem_singleton.mpr rfl)
    exact TimerManager.rollover_exact_iff_hourFits.mp (h.exact _ hcall)
  | _ => trivial

theorem inv_of_reach (h : clockMachine.Reach Fits r) : r.Inv := by
  apply Machine.Reach.invariant _ _ h
  · rintro _ ⟨previous, rfl⟩
    exact ⟨⟨by simp, by simp⟩, List.mem_singleton.mpr rfl⟩
  · exact fun r a s hr hfits hs => hr.step hfits hs

end ClockRun

/-- In every run whose calls of `listExpiredCb` find the hour to fit, the rollovers are detected
    exactly and a clock that never goes back collects no timer early; the next step keeps this if
    and only if it meets the condition as well. -/
theorem clock_punctual (r : ClockRun) (h : clockMachine.Reach ClockRun.Fits r) :
    r.Punctual ∧ ∀ a s, clockMachine.step r a = some s → (s.Punctual ↔ r.Fits a) := by
  have hinv := ClockRun.inv_of_reach h
  exact ⟨hinv.toPunctual, fun a s hs =>
    ⟨ClockRun.fits_of_punctual hs, fun hfits => (hinv.step hfits hs).toPunctual⟩⟩

/-- A clock of the first day, and one that goes back by two hours. -/
theorem clock_punctual_rollover :
    ∃ r, clockMachine.Reach ClockRun.Fits r ∧ r.Punctual ∧
      r.calls.map RolloverCall.rollover = [false, true] := by
  have hrun : ((clockMachine.run
      ⟨{ timers := fun _ => { addr := 0 }, previous := 10000000 }, [10000000], []⟩
      [.addTimer 10 (some (.fn 1)) true 10000000 20, .listExpiredCb 10000005 30,
        .listExpiredCb 2800005 30]).any
          fun r => r.calls.map RolloverCall.rollover = [false, true]) = true := by decide
  obtain ⟨r, hr, hcalls⟩ := (Option.any_eq_true _ _).mp hrun
  have hreach : clockMachine.Reach ClockRun.Fits r := by
    refine Machine.Reach.of_run _ (.init ⟨10000000, rfl⟩) ?_ hr
    refine .cons trivial rfl (.cons (fun _ => ?_) rfl (.cons (fun _ => ?_) rfl trivial))
    · decide
    · decide
  exact ⟨r, hreach, (clock_punctual r hreach).1, by simpa using hcalls⟩

/-- A clock that starts at the epoch: the timer is due at 10 and collected at 1. -/
theorem clock_near_epoch :
    ∃ r, clockMachine.Reachable r ∧ r.readings = [0, 1] ∧ ¬(∀ c ∈ r.calls, c.Exact) ∧
      ¬(∀ c ∈ r.calls, c.OnTime) := by
  have hrun : ((clockMachine.run ⟨{ timers := fun _ => { addr := 0 }, previous := 0 }, [0], []⟩
      [.addTimer 10 (some (.fn 1)) false 0 20, .listExpiredCb 1 30]).any fun r =>
        r.readings = [0, 1] ∧ r.calls = [⟨0, 1, true, [⟨false, 10, 10, some (.fn 1), 20⟩]⟩]) =
      true := by decide
  obtain ⟨r, hr, hr'⟩ := (Option.any_eq_true _ _).mp hrun
  obtain ⟨hreadings, hcalls⟩ := of_decide_eq_true hr'
  refine ⟨r, Machine.Reachable.of_run _ ⟨0, rfl⟩ hr, hreadings, ?_, ?_⟩
  · rw [hcalls]
    simp [RolloverCall.Exact]
  · rw [hcalls]
    simp [RolloverCall.OnTime]

end CppServerFramework.Async

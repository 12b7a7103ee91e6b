import Mathlib.Algebra.Ring.Nat
import CppServerFramework.Async.TimerProps

/-!
# What is in the timer set

A timer is in `m_timers` exactly as long as it has a function, so a live timer is always found.
What `listExpiredCb` takes out are the timers in front of a temporary one that is due now, and
the comparator tells that one from the timers due at the same time by the addresses.
-/

namespace CppServerFramework.Async

namespace TimerManager

variable {m m' : TimerManager} {i j : Nat} {t : Timer} {now : UInt64} {addr : Nat}

/-! ### Timers with a function -/

/-- Every timer of the set has a function. -/
def Armed (m : TimerManager) : Prop := ∀ i ∈ m.set, (m.timers i).cb ≠ none

/-- `m_timers` and the timers agree: it is sorted by the keys that they hold, a timer is in it if
    and only if it has a function, and then it is found. -/
structure Consistent (m : TimerManager) : Prop where
  sorted : m.set.Pairwise fun i j => (m.timers i).next < (m.timers j).next ∨
    (m.timers i).next = (m.timers j).next ∧ (m.timers i).addr < (m.timers j).addr
  nodup : m.set.Nodup
  live : ∀ i < m.count, i ∈ m.set ↔ (m.timers i).cb ≠ none
  bound : ∀ i ∈ m.set, i < m.count
  find : ∀ i < m.count, (m.timers i).cb ≠ none → m.find i = some i
  cancel : ∀ i < m.count, m.cancel i ≠ none

theorem Inv.consistent (h : m.Inv) (harmed : m.Armed) : m.Consistent where
  sorted := h.sorted.imp fun hij => less_iff.mp hij
  nodup := h.nodup
  live i hi := ⟨harmed i, h.active i hi⟩
  bound := h.bound
  find i hi hcb := h.find (h.active i hi hcb)
  cancel i hi := by
    obtain ⟨m', ok, heq, -⟩ := h.cancel hi
    simp [heq]

theorem mem_of_mem_insert (h : j ∈ (m.insert i).set) : j = i ∨ j ∈ m.set :=
  OrderedSet.mem_of_mem_insert h

theorem mem_of_mem_erase (h : j ∈ (m.erase i).set) : j ∈ m.set := OrderedSet.mem_of_mem_erase h

theorem Armed.erase (h : m.Armed) (i : Nat) : (m.erase i).Armed :=
  fun j hj => h j (mem_of_mem_erase hj)

/-- A timer is inserted with a function. -/
theorem Armed.insert_setTimer (h : m.Armed) (hcb : t.cb ≠ none) :
    ((m.setTimer i t).insert i).Armed := by
  intro j hj
  rw [timers_insert]
  by_cases hji : j = i
  · subst hji
    rw [timers_setTimer_self]
    exact hcb
  · rw [timers_setTimer_of_ne hji]
    exact h j ((mem_of_mem_insert hj).resolve_left hji)

theorem Armed.addTimer (h : m.Armed) {ms : UInt64} {cb : Option TimerCallback} {recurring : Bool}
    (hcb : cb ≠ none) : (m.addTimer ms cb recurring now addr).1.Armed := by
  intro j hj
  exact h.insert_setTimer (i := m.count) (t := ⟨recurring, ms, now + ms, cb, addr⟩) hcb j hj

theorem Inv.armed_cancel (h : m.Inv) (harmed : m.Armed) (hi : i < m.count) {ok : Bool}
    (hc : m.cancel i = some (m', ok)) : m'.Armed := by
  obtain ⟨m₁, ok₁, heq, -, -, hout⟩ := h.cancel hi
  rw [heq] at hc
  cases hc
  cases hcb : (m.timers i).cb with
  | none =>
    simp only [TimerManager.cancel, hcb] at heq
    cases heq
    exact harmed
  | some cb =>
    simp only [TimerManager.cancel, hcb] at heq
    obtain ⟨k, -, heq⟩ := Option.map_eq_some_iff.mp heq
    cases heq
    intro j hj
    have hji : j ≠ i := fun heq => hout rfl (heq ▸ hj)
    have hmem : j ∈ (m.setTimer i { m.timers i with cb := none }).set := mem_of_mem_erase hj
    rw [timers_erase, timers_setTimer_of_ne hji]
    exact harmed j hmem

/-- A timer that is given another due time keeps its function. -/
theorem Armed.rekey (h : m.Armed) (hcb : (m.timers i).cb ≠ none) (ht : t.cb = (m.timers i).cb) :
    (((m.erase i).setTimer i t).insert i).Armed :=
  (h.erase i).insert_setTimer (ht ▸ hcb)

theorem Armed.refresh (h : m.Armed) (i : Nat) (now : UInt64) : (m.refresh i now).1.Armed := by
  rw [TimerManager.refresh]
  split
  · exact h
  · rename_i hcb
    split
    · exact h
    · exact h.rekey hcb rfl

theorem Armed.reset (h : m.Armed) (i : Nat) (ms : UInt64) (fromNow : Bool) (now : UInt64) :
    (m.reset i ms fromNow now).1.Armed := by
  rw [TimerManager.reset]
  split
  · exact h
  · split
    · exact h
    · rename_i hcb
      split
      · exact h
      · intro j hj
        exact h.rekey (t := { m.timers i with
          ms, next := (if fromNow then now else (m.timers i).next - (m.timers i).ms) + ms })
          hcb rfl j hj

theorem Armed.getNextTimer (h : m.Armed) (now : UInt64) : (m.getNextTimer now).1.Armed := by
  rw [TimerManager.getNextTimer]
  split
  · exact h
  · split <;> exact h

/-! ### What the collector leaves -/

theorem timers_listExpiredCb (h : m.Ordered) (now : UInt64) (addr j : Nat) :
    (m.listExpiredCb now addr).1.timers j =
      if j ∈ m.expired now addr then collectedTimer now (m.timers j) else m.timers j := by
  rw [TimerManager.listExpiredCb]
  split
  · rename_i hempty
    have hexpired : m.expired now addr = [] :=
      List.prefix_nil.mp (hempty ▸ m.expired_prefix now addr)
    simp [hexpired]
  · exact ((h.taken now addr).collect now []).1.timers j

/-- The timers that it has not collected, and the recurring ones. -/
theorem mem_listExpiredCb (h : m.Ordered) (now : UInt64) (addr j : Nat) :
    j ∈ (m.listExpiredCb now addr).1.set ↔
      j ∈ m.set ∧ (j ∈ m.expired now addr → (m.timers j).recurring = true) := by
  have hheaded := m.expired_prefix now addr
  rw [TimerManager.listExpiredCb]
  split
  · rename_i hempty
    simp [hempty]
  · obtain ⟨hc, -⟩ := (h.taken now addr).collect now []
    rw [hc.set]
    constructor
    · rintro (hj | ⟨hj, hrec⟩)
      · exact ⟨List.mem_of_mem_drop hj, fun hmem => absurd hj ((h.taken now addr).taken j hmem)⟩
      · exact ⟨hheaded.subset hj, fun _ => hrec⟩
    · rintro ⟨hj, hrec⟩
      rcases mem_expired_or_drop hj with hmem | hdrop
      · exact Or.inr ⟨hmem, hrec hmem⟩
      · exact Or.inl hdrop

theorem Inv.armed_listExpiredCb (h : m.Inv) (harmed : m.Armed) (now : UInt64) (addr : Nat) :
    (m.listExpiredCb now addr).1.Armed := by
  intro j hj
  obtain ⟨hmem, hrec⟩ := (mem_listExpiredCb h.toOrdered now addr j).mp hj
  rw [timers_listExpiredCb h.toOrdered]
  split
  · rename_i hexpired
    rw [collectedTimer, if_pos (hrec hexpired)]
    exact harmed j hmem
  · exact harmed j hmem

end TimerManager

namespace TimerManager

variable {m : TimerManager} {i : Nat} {now : UInt64} {addr : Nat}

/-! ### What the collector takes -/

/-- `listExpiredCb` collects what is due, and when it is done only recurring timers of period 0
    are due.  So it collects something where `getNextTimer` has answered 0 before. -/
structure CollectsDue (m : TimerManager) (now : UInt64) (addr : Nat) : Prop where
  due : m.expired now addr = m.set.filter fun i => (m.timers i).next ≤ now
  callbacks : (m.listExpiredCb now addr).2 = (m.expired now addr).map fun i => (m.timers i).cb
  left : ∀ i ∈ (m.listExpiredCb now addr).1.set,
    ((m.listExpiredCb now addr).1.timers i).next ≤ now →
      ((m.listExpiredCb now addr).1.timers i).recurring = true ∧
        ((m.listExpiredCb now addr).1.timers i).ms = 0
  woken : ∀ earlier ≤ now, (m.getNextTimer earlier).2 = 0 →
    ((m.getNextTimer earlier).1.listExpiredCb now addr).2 ≠ []

/-- No timer due at `now` has an address above `addr`, and the next due time of a recurring timer
    that is collected does not wrap, unless its period is 0. -/
structure DueBelow (m : TimerManager) (now : UInt64) (addr : Nat) : Prop where
  ties : ∀ i ∈ m.set, (m.timers i).next = now → (m.timers i).addr ≤ addr
  periods : ∀ i ∈ m.set, (m.timers i).next ≤ now → (m.timers i).recurring = true →
    (m.timers i).ms ≠ 0 → now.toNat + (m.timers i).ms.toNat < 2 ^ 64

theorem comparator_now_iff :
    Timer.comparator (some { next := now, addr }) (some (m.timers i)) = true ↔
      now < (m.timers i).next ∨ now = (m.timers i).next ∧ addr < (m.timers i).addr := by
  simp only [Timer.comparator]
  split
  · simp_all
  · split <;> grind

/-- Without a rollover the timers collected are those that `now_timer` is not in front of. -/
theorem expired_eq_filter (h : m.Ordered) (hroll : m.detectClockRollover now = false) :
    m.expired now addr = m.set.filter fun i =>
      !Timer.comparator (some { next := now, addr }) (some (m.timers i)) := by
  rw [expired, if_neg (by simp [hroll])]
  have hafter : ∀ i j, m.less i j = true →
      Timer.comparator (some { next := now, addr }) (some (m.timers i)) = true →
      Timer.comparator (some { next := now, addr }) (some (m.timers j)) = true := by
    intro i j hij hi
    rw [comparator_now_iff] at hi ⊢
    rw [less_iff] at hij
    grind
  split
  · rename_i hhead
    -- the first timer is not due, and neither are those behind it
    refine (List.filter_eq_nil_iff.mpr fun i hi => ?_).symm
    have hsorted := h.sorted
    cases hset : m.set with
    | nil => simp [hset] at hi
    | cons j l =>
      rw [hset] at hi hhead hsorted
      have hj : Timer.comparator (some { next := now, addr }) (some (m.timers j)) = true :=
        comparator_now_iff.mpr (Or.inl (by simpa using hhead))
      rcases List.mem_cons.mp hi with rfl | hi
      · simp [hj]
      · simp [hafter j i ((List.pairwise_cons.mp hsorted).1 i hi) hj]
  · exact OrderedSet.upTo_eq_filter h.sorted hafter

theorem getNextTimer_eq_zero_iff : (m.getNextTimer now).2 = 0 ↔
    ∃ i, m.set.head? = some i ∧ (m.timers i).next ≤ now := by
  cases hset : m.set with
  | nil => simp [getNextTimer, hset]
  | cons i l =>
    simp only [getNextTimer, hset, List.head?_cons, Option.some.injEq, exists_eq_left']
    split
    · rename_i hge
      simpa using hge
    · rename_i hlt
      have hne : (m.timers i).next - now ≠ 0 := fun heq => hlt (by grind)
      simpa [hne] using hlt

theorem not_comparator_now_iff (hties : (m.timers i).next = now → (m.timers i).addr ≤ addr) :
    (!Timer.comparator (some { next := now, addr }) (some (m.timers i))) = true ↔
      (m.timers i).next ≤ now := by
  rw [Bool.not_eq_true', Bool.eq_false_iff, Ne, comparator_now_iff]
  grind

/-- The sum wraps when it is below its first summand. -/
theorem add_le_self_iff {a b : UInt64} : a + b ≤ a ↔ b = 0 ∨ 2 ^ 64 ≤ a.toNat + b.toNat := by
  rw [UInt64.le_iff_toNat_le, UInt64.toNat_add, ← UInt64.toNat_inj, UInt64.toNat_zero]
  have ha := a.toNat_lt
  have hb := b.toNat_lt
  omega

theorem Inv.collectsDue (h : m.Inv) (hroll : m.detectClockRollover now = false)
    (hbelow : m.DueBelow now addr) : m.CollectsDue now addr := by
  have hdue : m.expired now addr = m.set.filter fun i => (m.timers i).next ≤ now := by
    rw [expired_eq_filter h.toOrdered hroll]
    refine List.filter_congr fun i hi => ?_
    rw [Bool.eq_iff_iff, not_comparator_now_iff (hbelow.ties i hi), decide_eq_true_iff]
  have hmem : ∀ i, i ∈ m.expired now addr ↔ i ∈ m.set ∧ (m.timers i).next ≤ now := fun i => by
    rw [hdue, List.mem_filter, decide_eq_true_iff]
  obtain ⟨-, -, -, hcbs⟩ := h.listExpiredCb now addr
  refine ⟨hdue, hcbs, fun i hi hle => ?_, fun earlier hearlier hzero => ?_⟩
  · obtain ⟨hset, hrec⟩ := (mem_listExpiredCb h.toOrdered now addr i).mp hi
    rw [timers_listExpiredCb h.toOrdered] at hle ⊢
    split at hle
    · rename_i hexpired
      rw [if_pos hexpired, collectedTimer, if_pos (hrec hexpired)]
      rw [collectedTimer, if_pos (hrec hexpired)] at hle
      refine ⟨hrec hexpired, ?_⟩
      by_contra hms
      have hwrap := (add_le_self_iff.mp hle).resolve_left hms
      exact absurd (hbelow.periods i hset ((hmem i).mp hexpired).2 (hrec hexpired) hms) (by omega)
    · rename_i hexpired
      exact absurd ((hmem i).mpr ⟨hset, hle⟩) hexpired
  · obtain ⟨i, hhead, hle⟩ := getNextTimer_eq_zero_iff.mp hzero
    obtain ⟨-, -, -, hcbs⟩ := (h.tickle false).listExpiredCb now addr
    rw [getNextTimer_fst, hcbs]
    have hi : i ∈ m.expired now addr :=
      (hmem i).mpr ⟨List.mem_of_mem_head? hhead, UInt64.le_trans hle hearlier⟩
    exact List.map_eq_nil_iff.not.mpr (List.ne_nil_of_mem hi)

theorem CollectsDue.dueBelow (h : m.CollectsDue now addr) (hm : m.Inv)
    (hroll : m.detectClockRollover now = false) : m.DueBelow now addr := by
  have hmem : ∀ i, i ∈ m.expired now addr ↔ i ∈ m.set ∧ (m.timers i).next ≤ now := fun i => by
    rw [h.due, List.mem_filter, decide_eq_true_iff]
  refine ⟨fun i hi hnow => ?_, fun i hi hle hrec hms => ?_⟩
  · by_contra hlt
    have hexpired := (hmem i).mpr ⟨hi, by simp [hnow]⟩
    rw [expired_eq_filter hm.toOrdered hroll, List.mem_filter,
      comparator_now_iff.mpr (Or.inr ⟨hnow.symm, by omega⟩)] at hexpired
    cases hexpired.2
  · by_contra hwrap
    have hexpired := (hmem i).mpr ⟨hi, hle⟩
    have hleft := h.left i ((mem_listExpiredCb hm.toOrdered now addr i).mpr ⟨hi, fun _ => hrec⟩)
    rw [timers_listExpiredCb hm.toOrdered, if_pos hexpired, collectedTimer, if_pos hrec] at hleft
    exact hms (hleft (add_le_self_iff.mpr (Or.inr (by omega)))).2

end TimerManager

/-- The function of a timer that is added is not empty. -/
def TimerAction.Armed : TimerAction → Prop
  | .addTimer _ cb _ _ _ => cb ≠ none
  | _ => True

theorem TimerRun.armed_step {r s : TimerRun} (h : r.Inv) (harmed : r.manager.Armed)
    (a : TimerAction) (ha : a.Armed) (hs : timerMachine.step r a = some s) :
    s.manager.Armed := by
  cases a with
  | addTimer ms cb recurring now addr =>
    obtain ⟨-, heq⟩ := (Option.ite_none_right_eq_some ..).mp hs
    cases heq
    exact harmed.addTimer ha
  | addConditionTimer ms cb weakCond recurring now addr =>
    obtain ⟨-, heq⟩ := (Option.ite_none_right_eq_some ..).mp hs
    cases heq
    exact harmed.addTimer (by simp)
  | cancel i =>
    obtain ⟨hi, hcancel⟩ := (Option.ite_none_right_eq_some ..).mp hs
    obtain ⟨⟨m, ok⟩, hm, heq⟩ := Option.map_eq_some_iff.mp hcancel
    cases heq
    exact h.manager.armed_cancel harmed hi hm
  | refresh i now =>
    obtain ⟨-, heq⟩ := (Option.ite_none_right_eq_some ..).mp hs
    cases heq
    exact harmed.refresh i now
  | reset i ms fromNow now =>
    obtain ⟨-, heq⟩ := (Option.ite_none_right_eq_some ..).mp hs
    cases heq
    exact harmed.reset i ms fromNow now
  | getNextTimer now =>
    cases hs
    exact harmed.getNextTimer now
  | listExpiredCb now addr =>
    obtain ⟨-, heq⟩ := (Option.ite_none_right_eq_some ..).mp hs
    cases heq
    exact h.manager.armed_listExpiredCb harmed now addr

/-- In every run that adds timers with a function only, the timer set and the timers agree. -/
theorem timer_set_consistent (r : TimerRun)
    (h : timerMachine.Reach (fun _ a => a.Armed) r) : r.manager.Consistent := by
  have hinv : r.Inv ∧ r.manager.Armed := by
    apply Machine.Reach.invariant _ _ h
    · rintro _ ⟨previous, rfl⟩
      exact ⟨.initial previous, fun i hi => by cases hi⟩
    · exact fun r a s hr ha hs => ⟨hr.1.step a hs, TimerRun.armed_step hr.1 hr.2 a ha hs⟩
  exact hinv.1.manager.consistent hinv.2

/-- Two timers due at the same time, one of them reset and refreshed, and collected. -/
theorem timer_set_consistent_rekeyed :
    ∃ r, timerMachine.Reach (fun _ a => a.Armed) r ∧ r.manager.Consistent ∧
      r.manager.set = [1, 0] := by
  have hrun : ((timerMachine.run ⟨{ timers := fun _ => { addr := 0 }, previous := 5000000 }, []⟩
      [.addTimer 10 (some (.fn 1)) true 5000000 20, .addTimer 5 (some (.fn 2)) true 5000005 10,
        .addConditionTimer 1 none 7 false 5000006 15, .reset 1 7 true 5000006, .refresh 0 5000007,
        .listExpiredCb 5000017 30, .cancel 2, .reset 1 10 false 5000018]).any
          fun r => r.manager.set = [1, 0]) = true := by decide
  obtain ⟨r, hr, hset⟩ := (Option.any_eq_true _ _).mp hrun
  have hreach : timerMachine.Reach (fun _ a => a.Armed) r := by
    refine Machine.Reach.of_run _ (.init ⟨5000000, rfl⟩) (Machine.meets_of_forall ?_ _) hr
    intro a ha s
    simp only [List.mem_cons, List.not_mem_nil, or_false] at ha
    rcases ha with rfl | rfl | rfl | rfl | rfl | rfl | rfl | rfl <;> simp [TimerAction.Armed]
  exact ⟨r, hreach, timer_set_consistent r hreach, by simpa using hset⟩

/-- A call of `listExpiredCb` that finds no rollover collects exactly what is due, whenever no
    timer due at that moment is above `now_timer` and no next due time wraps. -/
theorem listExpiredCb_collectsDue_iff (r : TimerRun) (h : timerMachine.Reachable r)
    (now : UInt64) (addr : Nat) (hroll : r.manager.detectClockRollover now = false) :
    r.manager.CollectsDue now addr ↔ r.manager.DueBelow now addr :=
  have hinv := (TimerRun.inv_of_reachable h).manager
  ⟨fun hc => hc.dueBelow hinv hroll, hinv.collectsDue hroll⟩

/-- One timer due at the reading, with an address below that of `now_timer`. -/
theorem listExpiredCb_collectsDue_below :
    ∃ r, timerMachine.Reachable r ∧ r.manager.CollectsDue 5000010 30 ∧ r.manager.set = [0] := by
  have hrun : ((timerMachine.run ⟨{ timers := fun _ => { addr := 0 }, previous := 5000000 }, []⟩
      [.addTimer 10 (some (.fn 1)) false 5000000 20]).any fun r => r.manager.set = [0] ∧
        r.manager.detectClockRollover 5000010 = false ∧
        r.manager.timers 0 = ⟨false, 10, 5000010, some (.fn 1), 20⟩) = true := by decide
  obtain ⟨r, hr, hr'⟩ := (Option.any_eq_true _ _).mp hrun
  obtain ⟨hset, hroll, htimer⟩ := of_decide_eq_true hr'
  have hreach : timerMachine.Reachable r := Machine.Reachable.of_run _ ⟨5000000, rfl⟩ hr
  refine ⟨r, hreach, ?_, hset⟩
  refine (listExpiredCb_collectsDue_iff r hreach 5000010 30 hroll).mpr ⟨?_, ?_⟩ <;>
    · simp only [hset, List.mem_singleton, forall_eq, htimer]
      decide

/-- The same timer, and `now_timer` below it: `getNextTimer` answers 0, and nothing is collected. -/
theorem listExpiredCb_misses_due :
    ∃ r, timerMachine.Reachable r ∧ r.manager.Fresh 10 ∧
      r.manager.detectClockRollover 5000010 = false ∧ r.manager.set = [0] ∧
      (r.manager.timers 0).next = 5000010 ∧ (r.manager.getNextTimer 5000010).2 = 0 ∧
      ((r.manager.getNextTimer 5000010).1.listExpiredCb 5000010 10).2 = [] ∧
      ¬r.manager.CollectsDue 5000010 10 := by
  have hrun : ((timerMachine.run ⟨{ timers := fun _ => { addr := 0 }, previous := 5000000 }, []⟩
      [.addTimer 10 (some (.fn 1)) false 5000000 20]).any fun r => r.manager.Fresh 10 ∧
        r.manager.detectClockRollover 5000010 = false ∧ r.manager.set = [0] ∧
        (r.manager.timers 0).next = 5000010 ∧ (r.manager.getNextTimer 5000010).2 = 0 ∧
        ((r.manager.getNextTimer 5000010).1.listExpiredCb 5000010 10).2 = []) = true := by decide
  obtain ⟨r, hr, hr'⟩ := (Option.any_eq_true _ _).mp hrun
  obtain ⟨hfresh, hroll, hset, hnext, hzero, hnone⟩ := of_decide_eq_true hr'
  refine ⟨r, Machine.Reachable.of_run _ ⟨5000000, rfl⟩ hr, hfresh, hroll, hset, hnext, hzero, hnone,
    fun hc => hc.woken 5000010 (by decide) hzero hnone⟩

end CppServerFramework.Async

import CppServerFramework.Async.LookingWorkers
import CppServerFramework.Async.TimerSetProps
import CppServerFramework.Async.TimerWakeup

/-!
# No timer waits for a sleeping worker

A worker that sleeps past a timer is covered while a byte is in the pipe, a call of `tickle` is due,
another worker comes to `getNextTimer` before it runs a task, or another worker sleeps no longer
than the timers allow.  The guard names the steps that can take the last cover away; along guarded
runs a worker that sleeps past a timer stays covered, and a step against the guard uncovers one.
-/

namespace CppServerFramework.Async

/-- The times at which the timers in the set are due. -/
def TimerManager.dues (m : TimerManager) : List UInt64 := m.set.map fun i => (m.timers i).next

/-- The times at which they are due when `listExpiredCb` is done. -/
def TimerManager.duesLeft (m : TimerManager) (now : UInt64) (addr : Nat) : List UInt64 :=
  m.set.filterMap fun i =>
    if i ∈ m.expired now addr then
      if (m.timers i).recurring then some (now + (m.timers i).ms) else none
    else some (m.timers i).next

namespace TimerWorkers

/-- The worker is asleep with a deadline later than one of the times, and than its own reading of
    the clock.  A negative timeout is none. -/
def SleepsPast (s : TimerWorkers) (ds : List UInt64) (w : Nat) : Prop :=
  s.io.phase w = .asleep ∧ ∃ d ∈ ds, s.timeout w < 0 ∨
    ((max (s.since w).toNat d.toNat : Nat) : Int) < (s.since w).toNat + s.timeout w

/-- The worker is asleep with a deadline that none of the times is before. -/
def SleepsWithin (s : TimerWorkers) (ds : List UInt64) (w : Nat) : Prop :=
  s.io.phase w = .asleep ∧ ¬s.SleepsPast ds w

def Late (s : TimerWorkers) (w : Nat) : Prop := s.SleepsPast s.manager.dues w

def Timely (s : TimerWorkers) (w : Nat) : Prop := s.SleepsWithin s.manager.dues w

/-- The worker has been given functions of timers, and has yet to schedule them. -/
def Given (s : TimerWorkers) (w : Nat) : Prop :=
  (∃ tickled, s.io.phase w = .woken tickled) ∧ ∃ cbs, s.collecting w = .given cbs

/-- The worker is awake and evaluates `getNextTimer` before it runs a task. -/
def Looks (s : TimerWorkers) (w : Nat) : Prop := ¬s.Given w ∧ s.io.looks w = true

/-- A call of `tickle` is due: for a timer in front, for an entry pushed into an empty queue, or
    for functions that go into one. -/
def Due (s : TimerWorkers) : Prop :=
  0 < s.fronts ∨ s.io.Pending ∨ s.io.queue = [] ∧ ∃ w < s.io.threads, s.Given w

/-- A byte is in the pipe, or one is about to be written. -/
def Announced (s : TimerWorkers) : Prop := 0 < s.io.bytes ∨ s.Due

/-- Something covers the times for the workers that sleep past one; `looks` says who looks. -/
def Spares (s : TimerWorkers) (ds : List UInt64) (looks : Nat → Prop) : Prop :=
  (∃ w < s.io.threads, s.SleepsPast ds w) →
    s.Announced ∨ (∃ v < s.io.threads, looks v) ∨ ∃ v < s.io.threads, s.SleepsWithin ds v

/-- The worker looks, also with the entries behind the others in the queue. -/
def LooksBefore (s : TimerWorkers) (es : List FiberAndThread) (v : Nat) : Prop :=
  s.Looks v ∧ ((s.io.phase v).scanned = true ∨ s.io.freeOf es v = true)

end TimerWorkers

/-- The condition on a step.  Where a worker sleeps past a timer that nothing else covers:
    a timer is not put in front while `m_tickled` is set; entries are not pushed behind others
    before the worker that looks; a fiber does not come back to be run by it; a worker does not go
    to sleep with a distance to the next timer that does not fit its timeout, nor end its idle
    fiber; it does not wake up for a task; it does not collect functions that go behind others;
    and the pipe is not emptied by a worker that runs a task next. -/
def WakeupGuard (s : TimerWorkers) : WakeupAction → Prop
  | .addTimer ms _ _ now _ =>
    s.manager.tickled = false ∨ s.Spares ((now + ms) :: s.manager.dues) s.Looks
  | .loop (.schedule es) => s.io.queue = [] ∨ s.Spares s.manager.dues (s.LooksBefore es)
  | .loop (.requeue w) => s.io.queue = [] ∨ ∀ f, s.io.phase w = .requeue f →
      s.Spares s.manager.dues fun v => s.LooksBefore [⟨.fiber f, none⟩] v ∨
        v = w ∧ s.io.idleTerm w = false ∧ s.io.free w = true ∧
          (Job.fiber f).executable s.io.state = false
  | .loop (.finish w st) => st.ended = true ∨ ∀ f, s.io.phase w = .running f →
      s.Spares s.manager.dues fun v => ¬s.Given v ∧ (s.io.setState f st).looks v = true ∨
        v = w ∧ st ≠ .ready ∧ s.io.idleTerm w = false ∧ (s.io.setState f st).free w = true
  | .evaluate w now => IOManager.DistanceFits s.manager now ∨ s.Announced ∨
      (∃ v < s.io.threads, v ≠ w ∧ s.Looks v) ∨ ∃ v < s.io.threads, s.Timely v
  | .stop w _ => s.manager.set = [] ∨ s.Spares s.manager.dues fun v => v ≠ w ∧ s.Looks v
  | .wake w tickled => tickled = true ∨ ((∃ v < s.io.threads, v ≠ w ∧ s.Late v) →
      s.Announced ∨ s.io.idleTerm w = false ∧ s.io.free w = true ∨
        (∃ v < s.io.threads, s.Looks v) ∨ ∃ v < s.io.threads, v ≠ w ∧ s.Timely v)
  | .collect w now addr => s.manager.expired now addr = [] ∨ s.io.queue = [] ∨
      s.Spares (s.manager.duesLeft now addr) fun v => v ≠ w ∧ s.Looks v
  | .push w => s.io.queue = [] ∨ ∀ cbs, s.collecting w = .given cbs →
      s.Spares s.manager.dues fun v => s.LooksBefore (TimerWorkers.entries cbs) v ∨
        v = w ∧ s.io.looks w = true ∧ TimerWorkers.entries cbs = []
  | .drain w => s.Looks w ∨ ((∃ v < s.io.threads, s.Late v) →
      s.Due ∨ (∃ v < s.io.threads, s.Looks v) ∨ ∃ v < s.io.threads, s.Timely v)
  | _ => True

namespace TimerWorkers

variable {s t : TimerWorkers} {w v : Nat} {ds ds' : List UInt64} {looks looks' : Nat → Prop}

/-! ### Sleepers -/

theorem SleepsPast.of_le (h : s.SleepsPast ds w)
    (hle : ∀ d ∈ ds, ∃ d' ∈ ds', d' ≤ d) : s.SleepsPast ds' w := by
  obtain ⟨hasleep, d, hd, hpast⟩ := h
  obtain ⟨d', hd', hdd⟩ := hle d hd
  refine ⟨hasleep, d', hd', hpast.imp_right fun hlt => ?_⟩
  have hdd := UInt64.le_iff_toNat_le.mp hdd
  omega

/-- The workers that are asleep stay so, with their deadlines. -/
structure Still (s t : TimerWorkers) : Prop where
  threads : t.io.threads = s.io.threads
  asleep : ∀ v, t.io.phase v = .asleep ↔ s.io.phase v = .asleep
  since : t.since = s.since
  timeout : t.timeout = s.timeout

theorem Still.sleepsPast (h : Still s t) (hds : ∀ d, d ∈ ds' ↔ d ∈ ds) (v : Nat) :
    t.SleepsPast ds' v ↔ s.SleepsPast ds v := by
  simp only [SleepsPast, h.asleep v, h.since, h.timeout, hds]

theorem Still.sleepsWithin (h : Still s t) (hds : ∀ d, d ∈ ds' ↔ d ∈ ds) (v : Nat) :
    t.SleepsWithin ds' v ↔ s.SleepsWithin ds v := by
  rw [SleepsWithin, SleepsWithin, h.asleep, h.sleepsPast hds]

theorem Still.spares_iff (h : Still s t) (hds : ∀ d, d ∈ ds' ↔ d ∈ ds)
    (hannounced : t.Announced ↔ s.Announced)
    (hlooks : ∀ v < s.io.threads, looks' v ↔ looks v) :
    t.Spares ds' looks' ↔ s.Spares ds looks := by
  have hlooks : (∃ v < s.io.threads, looks' v) ↔ ∃ v < s.io.threads, looks v :=
    exists_congr fun v => and_congr_right fun hv => hlooks v hv
  simp only [Spares, h.threads, h.sleepsPast hds, h.sleepsWithin hds, hannounced, hlooks]

theorem Still.spares (h : Still s t) (hs : s.Spares ds looks)
    (hlate : ∀ d ∈ ds', ∃ d' ∈ ds, d' ≤ d) (hannounced : s.Announced → t.Announced)
    (hlooks : ∀ v < s.io.threads, looks v → t.Announced ∨ looks' v) : t.Spares ds' looks' := by
  have hback : ∀ v, t.SleepsPast ds' v → s.SleepsPast ds v := fun v hv =>
    ((h.sleepsPast (fun _ => Iff.rfl) v).mp hv).of_le hlate
  rintro ⟨w, hw, hpast⟩
  rw [h.threads] at hw ⊢
  rcases hs ⟨w, hw, hback w hpast⟩ with hs | ⟨v, hv, hs⟩ | ⟨v, hv, hasleep, hnot⟩
  · exact Or.inl (hannounced hs)
  · exact (hlooks v hv hs).imp_right fun hl => Or.inl ⟨v, hv, hl⟩
  · exact Or.inr (Or.inr ⟨v, hv, (h.asleep v).mpr hasleep, fun hp => hnot (hback v hp)⟩)

theorem spares_of_announced (h : s.Announced) : s.Spares ds looks := fun _ => Or.inl h

theorem given_congr {io : IOWorkers} (h : IOWorkers.Aside s.io io) (v : Nat) :
    ({ s with io } : TimerWorkers).Given v ↔ s.Given v := by
  simp only [Given, h.woken]

theorem still_of_aside {io : IOWorkers} (h : IOWorkers.Aside s.io io) :
    Still s { s with io } := ⟨h.threads, h.asleep, rfl, rfl⟩

theorem spares_of_keeps {io : IOWorkers} (h : IOWorkers.Keeps s.io io) (hc : io.Counts)
    (hs : s.Spares s.manager.dues s.Looks) :
    ({ s with io } : TimerWorkers).Spares s.manager.dues
      ({ s with io } : TimerWorkers).Looks := by
  rcases h.cover with hbytes | hpending | ⟨hbytes, hqueue, hpending, hlooks⟩
  · rintro ⟨w, hw, hasleep, -⟩
    exact Or.inl (Or.inl (hbytes (hc.pos hw (by rw [hasleep]; rfl))))
  · exact spares_of_announced (Or.inr (Or.inr (Or.inl hpending)))
  · refine (still_of_aside h.toAside).spares hs (fun d hd => ⟨d, hd, UInt64.le_refl d⟩)
      (fun ha => ?_) fun v hv hl => Or.inr ⟨mt (given_congr h.toAside v).mp hl.1, hlooks v hv hl.2⟩
    rcases ha with ha | ha | ha | ⟨hnil, v, hv, hg⟩
    · exact Or.inl (hbytes ▸ ha)
    · exact Or.inr (Or.inl ha)
    · exact Or.inr (Or.inr (Or.inl (hpending ha)))
    · exact Or.inr (Or.inr (Or.inr ⟨hqueue hnil, v, h.threads ▸ hv,
        (given_congr h.toAside v).mpr hg⟩))

/-! ### Adding and cancelling timers -/

theorem mem_dues_addTimer {m : TimerManager} (hm : m.Inv) {ms : UInt64}
    {cb : Option TimerCallback} {recurring : Bool} {now : UInt64} {addr : Nat}
    (hfresh : m.Fresh addr) (d : UInt64) :
    d ∈ (m.addTimer ms cb recurring now addr).1.dues ↔ d ∈ (now + ms) :: m.dues := by
  set m₀ : TimerManager :=
    { m.setTimer m.count ⟨recurring, ms, now + ms, cb, addr⟩ with count := m.count + 1 }
    with hm₀
  have hself : m₀.timers m.count = ⟨recurring, ms, now + ms, cb, addr⟩ :=
    TimerManager.timers_setTimer_self
  have hother : ∀ j ∈ m.set, m₀.timers j = m.timers j := fun j hj =>
    TimerManager.timers_setTimer_of_ne (Nat.ne_of_lt (hm.bound j hj))
  have hset : ∀ j, j ∈ (m.addTimer ms cb recurring now addr).1.set ↔ j = m.count ∨ j ∈ m.set :=
    fun j => TimerManager.Ordered.mem_insert (m := m₀) fun k hk => by
      rw [hself, hother k hk]
      exact hfresh k hk
  have htimers : (m.addTimer ms cb recurring now addr).1.timers = m₀.timers := rfl
  simp only [TimerManager.dues, List.mem_cons, List.mem_map, hset, htimers]
  constructor
  · rintro ⟨j, rfl | hj, rfl⟩
    · exact Or.inl (by rw [hself])
    · exact Or.inr ⟨j, hj, by rw [hother j hj]⟩
  · rintro (rfl | ⟨j, hj, rfl⟩)
    · exact ⟨m.count, Or.inl rfl, by rw [hself]⟩
    · exact ⟨j, Or.inr hj, by rw [hother j hj]⟩

/-- Where a timer does not go to the front, one that was there is due as early. -/
theorem exists_earlier_of_addTimer {m : TimerManager} (hm : m.Inv) {ms : UInt64}
    {cb : Option TimerCallback} {recurring : Bool} {now : UInt64} {addr : Nat}
    (hfresh : m.Fresh addr) (htickled : m.tickled = false)
    (hfront : (m.addTimer ms cb recurring now addr).2 = false) :
    ∀ d ∈ (m.addTimer ms cb recurring now addr).1.dues, ∃ d' ∈ m.dues, d' ≤ d := by
  have hinv : (m.addTimer ms cb recurring now addr).1.Inv := (hm.addTimer hfresh).1
  have hhead : (m.addTimer ms cb recurring now addr).1.set.head? ≠ some m.count := by
    intro hhead
    have hfind := hinv.find (List.mem_of_mem_head? hhead)
    rw [← hhead] at hfind
    simp only [TimerManager.addTimer, TimerManager.insertTimer, Bool.and_eq_false_iff,
      decide_eq_false_iff_not, Bool.not_eq_false'] at hfront
    rcases hfront with hfront | hfront
    · exact hfront hfind
    · exact absurd (htickled.symm.trans hfront) (by simp)
  intro d hd
  obtain ⟨i, hi, rfl⟩ := List.mem_map.mp hd
  have hsorted := hinv.sorted
  cases hset : (m.addTimer ms cb recurring now addr).1.set with
  | nil => simp [hset] at hi
  | cons j l =>
    rw [hset] at hi hsorted hhead
    have hne : j ≠ m.count := fun heq => hhead (by rw [List.head?_cons, heq])
    have hmem : j ∈ (m.addTimer ms cb recurring now addr).1.set := by simp [hset]
    have hj : j ∈ m.set := (OrderedSet.mem_of_mem_insert hmem).resolve_left hne
    have htimer : (m.addTimer ms cb recurring now addr).1.timers j = m.timers j :=
      TimerManager.timers_setTimer_of_ne hne
    refine ⟨(m.timers j).next, List.mem_map.mpr ⟨j, hj, rfl⟩, ?_⟩
    rw [← htimer]
    rcases List.mem_cons.mp hi with rfl | hi
    · exact UInt64.le_refl _
    · exact TimerManager.next_le_of_less ((List.pairwise_cons.mp hsorted).1 i hi)

/-- With `m_tickled` set, a timer asks for no `tickle`. -/
theorem addTimer_snd_of_tickled {m : TimerManager} (h : m.tickled = true) {ms : UInt64}
    {cb : Option TimerCallback} {recurring : Bool} {now : UInt64} {addr : Nat} :
    (m.addTimer ms cb recurring now addr).2 = false := by
  simp only [TimerManager.addTimer, TimerManager.insertTimer, Bool.and_eq_false_iff]
  exact Or.inr (by simpa [TimerManager.insert, TimerManager.setTimer] using h)

theorem guard_addTimer (hm : s.manager.Inv) (hs : s.Spares s.manager.dues s.Looks) {ms : UInt64}
    {cb : Option TimerCallback} {recurring : Bool} {now : UInt64} {addr : Nat}
    (h : s.addTimer ms cb recurring now addr = some t) :
    WakeupGuard s (.addTimer ms cb recurring now addr) ↔ t.Spares t.manager.dues t.Looks := by
  obtain ⟨hfresh, heq⟩ := (Option.ite_none_right_eq_some ..).mp h
  cases heq
  have hstill : Still s { s with
      manager := (s.manager.addTimer ms cb recurring now addr).1
      fronts := if (s.manager.addTimer ms cb recurring now addr).2 then s.fronts + 1
        else s.fronts } := ⟨rfl, fun _ => Iff.rfl, rfl, rfl⟩
  cases htickled : s.manager.tickled with
  | false =>
    refine iff_of_true (Or.inl htickled) ?_
    cases hfront : (s.manager.addTimer ms cb recurring now addr).2 with
    | true => exact spares_of_announced (Or.inr (Or.inl (Nat.succ_pos _)))
    | false =>
      rw [hfront] at hstill
      exact hstill.spares hs (exists_earlier_of_addTimer hm hfresh htickled hfront) id
        fun v _ hl => Or.inr hl
  | true =>
    have hfront : (s.manager.addTimer ms cb recurring now addr).2 = false :=
      addTimer_snd_of_tickled htickled
    have hguard : WakeupGuard s (.addTimer ms cb recurring now addr) ↔
        s.Spares ((now + ms) :: s.manager.dues) s.Looks :=
      or_iff_right (by simp [htickled])
    rw [hfront] at hstill ⊢
    rw [hguard]
    exact (hstill.spares_iff (mem_dues_addTimer hm hfresh) Iff.rfl fun _ _ => Iff.rfl).symm

theorem spares_frontTickle (hc : s.io.Counts) (h : s.frontTickle = some t) :
    t.Spares ds looks := by
  obtain ⟨-, heq⟩ := (Option.ite_none_right_eq_some ..).mp h
  cases heq
  obtain ⟨hthreads, -, -, hphase, -, -⟩ := IOWorkers.tickle_fields s.io
  rintro ⟨w, hw, hasleep, -⟩
  simp only [hthreads, hphase] at hw hasleep
  exact Or.inl (Or.inl (IOWorkers.bytes_tickle_pos (hc.pos hw (by rw [hasleep]; rfl))))

/-- A cancellation leaves the due times of the timers that stay. -/
theorem dues_cancel {m m' : TimerManager} {i : Nat} {ok : Bool}
    (hc : m.cancel i = some (m', ok)) : ∀ d ∈ m'.dues, ∃ d' ∈ m.dues, d' ≤ d := by
  rw [TimerManager.cancel] at hc
  split at hc
  · cases hc
    exact fun d hd => ⟨d, hd, UInt64.le_refl d⟩
  · obtain ⟨k, -, heq⟩ := Option.map_eq_some_iff.mp hc
    cases heq
    intro d hd
    obtain ⟨j, hj, rfl⟩ := List.mem_map.mp hd
    refine ⟨_, List.mem_map.mpr ⟨j, OrderedSet.mem_of_mem_erase hj, rfl⟩, ?_⟩
    by_cases hji : j = i
    · subst hji
      simp
    · rw [TimerManager.timers_erase, TimerManager.timers_setTimer_of_ne hji]
      exact UInt64.le_refl _

theorem spares_cancel (hs : s.Spares s.manager.dues s.Looks) {i : Nat}
    (h : s.cancel i = some t) : t.Spares t.manager.dues t.Looks := by
  obtain ⟨-, hcancel⟩ := (Option.ite_none_right_eq_some ..).mp h
  obtain ⟨⟨m, ok⟩, hm, heq⟩ := Option.map_eq_some_iff.mp hcancel
  cases heq
  have hstill : Still s { s with manager := m } := ⟨rfl, fun _ => Iff.rfl, rfl, rfl⟩
  exact hstill.spares hs (dues_cancel hm) id fun v _ hl => Or.inr hl

/-! ### Pushing entries -/

/-- Entries that go behind others keep back whoever has not scanned the queue yet. -/
theorem looks_push (hphase : t.io.phase v = s.io.phase v)
    (hcollecting : t.collecting v = s.collecting v)
    (hidle : t.io.idleTerm v = s.io.idleTerm v) (hstate : t.io.state = s.io.state)
    {es : List FiberAndThread} (hqueue : t.io.queue = s.io.queue ++ es) :
    t.Looks v ↔ s.LooksBefore es v := by
  rw [Looks, LooksBefore, Looks, Given, Given, hphase, hcollecting,
    IOWorkers.looks_append hphase hidle hstate hqueue]
  simp only [Bool.and_eq_true, Bool.or_eq_true, and_assoc]

/-- What announces a wake-up, where the queue is not empty before or after. -/
theorem announced_congr (hbytes : t.io.bytes = s.io.bytes) (hfronts : t.fronts = s.fronts)
    (hpending : t.io.Pending ↔ s.io.Pending) (hs : s.io.queue ≠ []) (ht : t.io.queue ≠ []) :
    t.Announced ↔ s.Announced := by
  simp only [Announced, Due, hbytes, hfronts, hpending, hs, ht, false_and]

theorem pending_iff {io io' : IOWorkers} (h : IOWorkers.Moves io io' w)
    (htickles : io'.tickles = io.tickles) (hold : (io.phase w).tickling = false)
    (hnew : (io'.phase w).tickling = false) : io'.Pending ↔ io.Pending := by
  have hback : IOWorkers.Moves io' io w :=
    ⟨h.threads ▸ h.lt, h.threads.symm, fun v hv => (h.phase v hv).symm⟩
  exact ⟨fun hp => hp.moves hback htickles.le (by simp [hnew]),
    fun hp => hp.moves h htickles.ge (by simp [hold])⟩

theorem guard_schedule (hs : s.Spares s.manager.dues s.Looks) {es : List FiberAndThread} :
    WakeupGuard s (.loop (.schedule es)) ↔
      ({ s with io := s.io.schedule es } : TimerWorkers).Spares s.manager.dues
        ({ s with io := s.io.schedule es } : TimerWorkers).Looks := by
  have hstill : Still s { s with io := s.io.schedule es } := ⟨rfl, fun _ => Iff.rfl, rfl, rfl⟩
  have hlooks : ∀ v, ({ s with io := s.io.schedule es } : TimerWorkers).Looks v ↔
      s.LooksBefore es v := fun v =>
    looks_push (s := s) (t := { s with io := s.io.schedule es }) rfl rfl rfl rfl rfl
  by_cases hnil : s.io.queue = []
  · refine iff_of_true (Or.inl hnil) ?_
    by_cases hes : es = []
    · subst hes
      refine hstill.spares hs (fun d hd => ⟨d, hd, UInt64.le_refl d⟩) (fun ha => ?_)
        fun v _ hl => Or.inr ((hlooks v).mpr ⟨hl, Or.inr rfl⟩)
      refine ha.imp_right (Or.imp_right (Or.imp ?_ ?_))
      · exact Or.imp_left (by simp [IOWorkers.schedule])
      · exact And.imp_left (by simp [IOWorkers.schedule])
    · refine spares_of_announced (Or.inr (Or.inr (Or.inl (Or.inl ?_))))
      simp [IOWorkers.schedule, hnil, hes]
  · have hguard : WakeupGuard s (.loop (.schedule es)) ↔
        s.Spares s.manager.dues (s.LooksBefore es) := or_iff_right hnil
    rw [hguard]
    refine (hstill.spares_iff (fun _ => Iff.rfl) ?_ fun v _ => hlooks v).symm
    refine announced_congr rfl rfl ?_ hnil (by simp [IOWorkers.schedule, hnil])
    simp [IOWorkers.Pending, IOWorkers.schedule, hnil]

theorem not_given (h : ∀ tickled, s.io.phase w ≠ .woken tickled) : ¬s.Given w :=
  fun hg => hg.1.elim h

theorem guard_requeue (hw : w < s.io.threads)
    {io : IOWorkers} (h : s.io.requeue w = some io) :
    WakeupGuard s (.loop (.requeue w)) ↔ ({ s with io } : TimerWorkers).Spares s.manager.dues
      ({ s with io } : TimerWorkers).Looks := by
  simp only [IOWorkers.requeue] at h
  split at h
  case h_2 => cases h
  rename_i f hphase
  cases h
  set io : IOWorkers := IOWorkers.setPhase { s.io with
    queue := s.io.queue ++ [⟨.fiber f, none⟩] } w (if s.io.queue = [] then .requeued else .scan)
    with hio
  have hm : IOWorkers.Moves s.io io w := ⟨hw, rfl, fun v hv => IOWorkers.phase_setPhase_ne _ _ hv⟩
  have hnew : io.phase w = if s.io.queue = [] then .requeued else .scan :=
    IOWorkers.phase_setPhase_self ..
  have hinside : (io.phase w).inside = false := by
    rw [hnew]
    split <;> rfl
  have haside : IOWorkers.Aside s.io io := hm.aside (by simp [hphase, IOPhase.inside]) hinside
  by_cases hnil : s.io.queue = []
  · refine iff_of_true (Or.inl hnil) (spares_of_announced (Or.inr (Or.inr (Or.inl ?_))))
    exact IOWorkers.pending_of_tickling (s := io) hw (by rw [hnew, if_pos hnil]; rfl)
  · rw [if_neg hnil] at hnew
    have hguard : WakeupGuard s (.loop (.requeue w)) ↔ s.Spares s.manager.dues fun v =>
        s.LooksBefore [⟨.fiber f, none⟩] v ∨ v = w ∧ s.io.idleTerm w = false ∧
          s.io.free w = true ∧ (Job.fiber f).executable s.io.state = false := by
      refine (or_iff_right hnil).trans ⟨fun h => h f hphase, fun h g hg => ?_⟩
      rw [hphase] at hg
      cases hg
      exact h
    rw [hguard]
    refine ((still_of_aside haside).spares_iff (fun _ => Iff.rfl) ?_ fun v _ => ?_).symm
    · refine announced_congr rfl rfl (pending_iff hm rfl (by simp [hphase, IOPhase.tickling])
        (by simp [hnew, IOPhase.tickling])) hnil ?_
      simp [hio, IOWorkers.setPhase]
    · by_cases hvw : v = w
      · subst hvw
        have hbefore : ¬s.LooksBefore [⟨.fiber f, none⟩] v := fun hl => by
          have hlooks := hl.1.2
          simp [IOWorkers.looks, hphase, IOPhase.looks] at hlooks
        have hgiven : ¬({ s with io } : TimerWorkers).Given v := not_given fun _ => by simp [hnew]
        have hfree : io.free v =
            (s.io.free v && !(Job.fiber f).executable s.io.state) := by
          refine (IOWorkers.freeOf_append ..).trans ?_
          simp [IOWorkers.free, IOWorkers.freeOf, FiberAndThread.mayRun, hio, IOWorkers.setPhase]
        have hidle : io.idleTerm v = s.io.idleTerm v := rfl
        simp only [Looks, hgiven, not_false_eq_true, true_and, hbefore, false_or,
          IOWorkers.looks, hnew, IOPhase.looks, hfree, hidle, Bool.and_eq_true, Bool.not_eq_true']
      · rw [looks_push (s := s) (t := { s with io }) (hm.phase v hvw) rfl rfl rfl rfl]
        exact (or_iff_left fun h => hvw h.1).symm

/-- A fiber that has ended is not fit to run. -/
theorem not_executable_setState {io : IOWorkers} {f : Nat} {st : FiberState}
    (hst : st.ended = true) {j : Job}
    (h : j.executable (io.setState f st).state = true) : j.executable io.state = true := by
  cases j with
  | cb => rfl
  | fiber g =>
    change Job.executable (Function.update io.state f st) _ = true at h
    by_cases hg : g = f
    · subst hg
      simp [Job.executable, hst] at h
    · simpa [Job.executable, Function.update_of_ne hg] using h

theorem guard_finish (hs : s.Spares s.manager.dues s.Looks) (hw : w < s.io.threads)
    {st : FiberState} {io : IOWorkers} (h : s.io.finish w st = some io) :
    WakeupGuard s (.loop (.finish w st)) ↔ ({ s with io } : TimerWorkers).Spares s.manager.dues
      ({ s with io } : TimerWorkers).Looks := by
  simp only [IOWorkers.finish] at h
  split at h
  case h_2 => cases h
  rename_i f hphase
  simp only [Option.ite_none_left_eq_some, Option.some.injEq] at h
  obtain ⟨-, rfl⟩ := h
  set io : IOWorkers := (s.io.setState f st).setPhase w
    (if st = .ready then .requeue f else .scan) with hio
  have hm : IOWorkers.Moves s.io io w := ⟨hw, rfl, fun v hv => IOWorkers.phase_setPhase_ne _ _ hv⟩
  have hnew : io.phase w = if st = .ready then .requeue f else .scan :=
    IOWorkers.phase_setPhase_self ..
  have hinside : (io.phase w).inside = false := by
    rw [hnew]
    split <;> rfl
  have hstill := still_of_aside (hm.aside (by simp [hphase, IOPhase.inside]) hinside)
  have hpending : io.Pending ↔ s.io.Pending := by
    refine pending_iff hm rfl (by simp [hphase, IOPhase.tickling]) ?_
    rw [hnew]
    split <;> rfl
  have hgiven : ∀ v, ({ s with io } : TimerWorkers).Given v ↔ s.Given v :=
    given_congr (hm.aside (by simp [hphase, IOPhase.inside]) hinside)
  have hannounced : ({ s with io } : TimerWorkers).Announced ↔ s.Announced := by
    simp only [Announced, Due, hpending, hgiven]
    exact Iff.rfl
  by_cases hst : st.ended = true
  · refine iff_of_true (Or.inl hst) (hstill.spares hs (fun d hd => ⟨d, hd, UInt64.le_refl d⟩)
      hannounced.mpr fun v hv hl => Or.inr ⟨mt (hgiven v).mp hl.1, ?_⟩)
    have hvw : v ≠ w := by
      rintro rfl
      have hlooks := hl.2
      simp [IOWorkers.looks, hphase, IOPhase.looks] at hlooks
    refine IOWorkers.looks_mono (hm.phase v hvw) rfl (fun g hg => ?_)
      (IOWorkers.free_mono (List.Subset.refl _) fun j => not_executable_setState hst) hl.2
    change (Function.update s.io.state f st g).ended = true
    by_cases hgf : g = f
    · rwa [hgf, Function.update_self]
    · rwa [Function.update_of_ne hgf]
  · have hguard : WakeupGuard s (.loop (.finish w st)) ↔ s.Spares s.manager.dues fun v =>
        ¬s.Given v ∧ (s.io.setState f st).looks v = true ∨ v = w ∧ st ≠ .ready ∧
          s.io.idleTerm w = false ∧ (s.io.setState f st).free w = true := by
      refine (or_iff_right hst).trans ⟨fun h => h f hphase, fun h g hg => ?_⟩
      rw [hphase] at hg
      cases hg
      exact h
    rw [hguard]
    refine (hstill.spares_iff (fun _ => Iff.rfl) hannounced fun v _ => ?_).symm
    by_cases hvw : v = w
    · subst hvw
      have hrunning : (s.io.setState f st).looks v = false := by
        have hold : (s.io.setState f st).phase v = .running f := hphase
        simp [IOWorkers.looks, hold, IOPhase.looks]
      have hnot : ¬({ s with io } : TimerWorkers).Given v := not_given fun _ => by
        rw [hnew]
        split <;> simp
      have hidle : io.idleTerm v = s.io.idleTerm v := rfl
      have hfree : io.free v = (s.io.setState f st).free v := rfl
      rw [hrunning]
      simp only [Looks, hnot, not_false_eq_true, true_and, Bool.false_eq_true, and_false,
        false_or, IOWorkers.looks, hnew, hidle, hfree]
      by_cases hready : st = .ready
      · simp [hready, IOPhase.looks]
      · simp [hready, IOPhase.looks]
    · have hlooks : io.looks v = (s.io.setState f st).looks v :=
        IOWorkers.looks_congr (hm.phase v hvw) rfl rfl rfl
      rw [Looks, hgiven, hlooks]
      exact (or_iff_left fun h => hvw h.1).symm

/-- What the steps of the loop keep, and what the guard says of the others. -/
theorem guard_loop (hc : s.io.Counts) (hs : s.Spares s.manager.dues s.Looks) {a : TickleAction}
    (ha : a.outside = true) {io : IOWorkers} (h : s.io.step a = some io) :
    WakeupGuard s (.loop a) ↔ ({ s with io } : TimerWorkers).Spares s.manager.dues
      ({ s with io } : TimerWorkers).Looks := by
  have hcounts : io.Counts := IOWorkers.counts_step hc h
  have hkeeps : IOWorkers.Keeps s.io io → ({ s with io } : TimerWorkers).Spares s.manager.dues
      ({ s with io } : TimerWorkers).Looks := fun hk => spares_of_keeps hk hcounts hs
  simp only [IOWorkers.step, Option.ite_none_left_eq_some] at h
  obtain ⟨hworker, h⟩ := h
  have hlt : ∀ w, a.worker = some w → w < s.io.threads := fun w ha => by simpa [ha] using hworker
  have haside : ∀ u : IOWorkers, u.threads = s.io.threads → u.phase = s.io.phase →
      IOWorkers.Aside s.io u := fun u ht hp => ⟨ht, fun v => Or.inl (by rw [hp])⟩
  cases a with
  | schedule es =>
    cases h
    exact guard_schedule hs
  | requeue w => exact guard_requeue (hlt w rfl) h
  | finish w st => exact guard_finish hs (hlt w rfl) h
  | scheduleTickle =>
    simp only [IOWorkers.scheduleTickle, Option.ite_none_right_eq_some, Option.some.injEq] at h
    obtain ⟨-, rfl⟩ := h
    obtain ⟨hthreads, -, -, hphase, -, hidle⟩ :=
      IOWorkers.tickle_fields { s.io with tickles := s.io.tickles - 1 }
    refine iff_of_true trivial (hkeeps ⟨haside _ hthreads hphase, Or.inl fun hpos => ?_⟩)
    exact IOWorkers.bytes_tickle_pos (hidle ▸ hpos)
  | notify =>
    cases h
    obtain ⟨hthreads, -, -, hphase, -, hidle⟩ := IOWorkers.tickle_fields s.io
    exact iff_of_true trivial (hkeeps (IOWorkers.keeps_tickle (haside _ hthreads hphase) rfl hidle))
  | scan w => exact iff_of_true trivial (hkeeps (IOWorkers.keeps_scan (hlt w rfl) h))
  | workerTickle w =>
    exact iff_of_true trivial (hkeeps (IOWorkers.keeps_workerTickle (hlt w rfl) h))
  | swapIn w f => exact iff_of_true trivial (hkeeps (IOWorkers.keeps_swapIn (hlt w rfl) h))
  | drop w => exact iff_of_true trivial (hkeeps (IOWorkers.keeps_drop (hlt w rfl) h))
  | enterIdle w => exact iff_of_true trivial (hkeeps (IOWorkers.keeps_enterIdle (hlt w rfl) h))
  | sleep w => cases ha
  | stop w => cases ha
  | wake w tickled => cases ha
  | drain w => cases ha
  | leaveIdle w => cases ha

/-! ### In and out of the idle fiber -/

/-- Nothing of worker `v` changes, and nothing that it finds when it scans. -/
theorem looks_other (hphase : t.io.phase v = s.io.phase v)
    (hcollecting : t.collecting v = s.collecting v)
    (hidle : t.io.idleTerm v = s.io.idleTerm v) (hstate : t.io.state = s.io.state)
    (hqueue : t.io.queue = s.io.queue) : t.Looks v ↔ s.Looks v := by
  rw [Looks, Looks, Given, Given, hphase, hcollecting,
    IOWorkers.looks_congr hphase hidle hstate hqueue]

theorem dues_getNextTimer (m : TimerManager) (now : UInt64) :
    (m.getNextTimer now).1.dues = m.dues := by
  rw [TimerManager.getNextTimer_fst]
  rfl

/-- After an evaluation with a distance that fits, the worker sleeps past no timer. -/
theorem not_sleepsPast_of_fits {m : TimerManager} (hm : m.Inv) {now : UInt64}
    (hfits : IOManager.DistanceFits m now) (hsince : s.since w = now)
    (htimeout : s.timeout w =
      CInt.intOfSize (IOManager.clampTimeout (m.getNextTimer now).2).toNat) :
    ¬s.SleepsPast m.dues w := by
  obtain ⟨hnonneg, -, hle⟩ := (IOManager.clampTimeout_timely_iff _).mpr
    (IOManager.distanceFits_iff.mp hfits)
  rintro ⟨-, d, hd, hpast⟩
  obtain ⟨i, hi, rfl⟩ := List.mem_map.mp hd
  rw [htimeout, hsince] at hpast
  cases hset : m.set with
  | nil => simp [hset] at hi
  | cons h l =>
    have hhead : (m.timers h).next ≤ (m.timers i).next := by
      have hsorted := hm.sorted
      rw [hset] at hi hsorted
      rcases List.mem_cons.mp hi with rfl | hi
      · exact UInt64.le_refl _
      · exact TimerManager.next_le_of_less ((List.pairwise_cons.mp hsorted).1 i hi)
    have hreach : now.toNat + ((m.getNextTimer now).2).toNat ≤
        max now.toNat (m.timers h).next.toNat := by
      simp only [TimerManager.getNextTimer, hset]
      split
      · rw [UInt64.toNat_zero]
        omega
      · rename_i hdue
        have hlt := UInt64.not_le.mp hdue
        rw [UInt64.toNat_sub_of_le _ _ (UInt64.le_of_lt hlt)]
        have hlt := UInt64.lt_iff_toNat_lt.mp hlt
        omega
    have hhead := UInt64.le_iff_toNat_le.mp hhead
    omega

/-- A distance that does not fit makes a timeout that is none. -/
theorem timeout_neg {m : TimerManager} {now : UInt64} (h : ¬IOManager.DistanceFits m now) :
    m.dues ≠ [] ∧
      CInt.intOfSize (IOManager.clampTimeout (m.getNextTimer now).2).toNat < 0 := by
  simp only [IOManager.DistanceFits, not_forall, not_or] at h
  obtain ⟨i, hi, hlt, hne, hbits⟩ := h
  have hset : m.set ≠ [] := List.ne_nil_of_mem (List.mem_of_mem_head? hi)
  have hnext : (m.getNextTimer now).2 = (m.timers i).next - now := by
    cases hm : m.set with
    | nil => exact absurd hm hset
    | cons j l =>
      rw [hm] at hi
      cases hi
      simp only [TimerManager.getNextTimer, hm]
      rw [if_neg (UInt64.not_le.mpr hlt)]
  rw [← IOManager.intOfSize_nonneg_iff] at hbits
  rw [hnext, IOManager.clampTimeout, if_pos hne, if_neg (by omega)]
  exact ⟨by simpa [TimerManager.dues] using hset, by omega⟩

/-- The worker `w` moves in or out of the idle fiber, and nothing else does. -/
structure Passes (s t : TimerWorkers) (w : Nat) : Prop extends IOWorkers.Moves s.io t.io w where
  old : (s.io.phase w).tickling = false
  new : (t.io.phase w).tickling = false
  state : t.io.state = s.io.state
  queue : t.io.queue = s.io.queue
  tickles : t.io.tickles = s.io.tickles
  fronts : t.fronts = s.fronts
  idleTerm : ∀ v, v ≠ w → t.io.idleTerm v = s.io.idleTerm v
  collecting : ∀ v, v ≠ w → t.collecting v = s.collecting v
  since : ∀ v, v ≠ w → t.since v = s.since v
  timeout : ∀ v, v ≠ w → t.timeout v = s.timeout v
  given : t.Given w ↔ s.Given w

namespace Passes

theorem due_iff (h : Passes s t w) : t.Due ↔ s.Due := by
  have hgiven : ∀ v, t.Given v ↔ s.Given v := fun v => by
    by_cases hv : v = w
    · exact hv ▸ h.given
    · rw [Given, Given, h.phase v hv, h.collecting v hv]
  simp only [Due, h.fronts, h.queue, h.threads, hgiven,
    pending_iff h.toMoves h.tickles h.old h.new]

theorem looks_iff (h : Passes s t w) (hv : v ≠ w) : t.Looks v ↔ s.Looks v :=
  looks_other (h.phase v hv) (h.collecting v hv) (h.idleTerm v hv) h.state h.queue

theorem sleepsPast (h : Passes s t w) (hv : v ≠ w) : t.SleepsPast ds v ↔ s.SleepsPast ds v := by
  simp only [SleepsPast, h.phase v hv, h.since v hv, h.timeout v hv]

theorem sleepsWithin (h : Passes s t w) (hv : v ≠ w) :
    t.SleepsWithin ds v ↔ s.SleepsWithin ds v := by
  rw [SleepsWithin, SleepsWithin, h.phase v hv, h.sleepsPast hv]

end Passes

theorem guard_evaluate (hm : s.manager.Inv) (hw : w < s.io.threads) {now : UInt64}
    (h : s.evaluate w now = some t) :
    WakeupGuard s (.evaluate w now) ↔ t.Spares t.manager.dues t.Looks := by
  simp only [TimerWorkers.evaluate, IOWorkers.sleep] at h
  split at h
  case h_2 => cases h
  rename_i hphase
  rw [Option.map_some, Option.some.injEq] at h
  have hnew : t.io.phase w = .asleep := by rw [← h]; exact IOWorkers.phase_setPhase_self ..
  have hp : Passes s t w := by
    refine ⟨⟨hw, h ▸ rfl, fun v hv => ?_⟩, by simp [hphase, IOPhase.tickling],
      by simp [hnew, IOPhase.tickling], h ▸ rfl, h ▸ rfl, h ▸ rfl, h ▸ rfl, fun _ _ => h ▸ rfl,
      fun _ _ => h ▸ rfl, fun v hv => ?_, fun v hv => ?_, ?_⟩
    · rw [← h]
      exact IOWorkers.phase_setPhase_ne _ _ hv
    · rw [← h]
      exact Function.update_of_ne hv ..
    · rw [← h]
      exact Function.update_of_ne hv ..
    · simp [Given, hnew, hphase]
  have hbytes : t.io.bytes = s.io.bytes := h ▸ rfl
  have hdues : t.manager.dues = s.manager.dues := by
    rw [← h]
    exact dues_getNextTimer ..
  have hsince : t.since w = now := by rw [← h]; exact Function.update_self ..
  have htimeout : t.timeout w =
      CInt.intOfSize (IOManager.clampTimeout (s.manager.getNextTimer now).2).toNat := by
    rw [← h]
    exact Function.update_self ..
  rw [hdues]
  by_cases hfits : IOManager.DistanceFits s.manager now
  · exact iff_of_true (Or.inl hfits) fun _ => Or.inr (Or.inr ⟨w, hp.threads ▸ hw, hnew,
      not_sleepsPast_of_fits hm hfits hsince htimeout⟩)
  · -- the worker itself sleeps past the timers now
    obtain ⟨hne, hneg⟩ := timeout_neg hfits
    obtain ⟨d, hd⟩ := List.exists_mem_of_ne_nil _ hne
    have hpast : t.SleepsPast s.manager.dues w := ⟨hnew, d, hd, Or.inl (htimeout ▸ hneg)⟩
    have hguard : WakeupGuard s (.evaluate w now) ↔ s.Announced ∨
        (∃ v < s.io.threads, v ≠ w ∧ s.Looks v) ∨ ∃ v < s.io.threads, s.Timely v :=
      or_iff_right hfits
    have hnot : ¬t.Looks w := fun hl => by
      have hlooks := hl.2
      simp [IOWorkers.looks, hnew, IOPhase.looks] at hlooks
    rw [hguard, Spares, hp.threads, Announced, Announced, hbytes, hp.due_iff]
    constructor
    · intro hcover _
      refine hcover.imp_right (Or.imp ?_ ?_)
      · rintro ⟨v, hv, hvw, hl⟩
        exact ⟨v, hv, (hp.looks_iff hvw).mpr hl⟩
      · rintro ⟨v, hv, hl⟩
        have hvw : v ≠ w := by
          rintro rfl
          exact absurd hl.1 (by simp [hphase])
        exact ⟨v, hv, (hp.sleepsWithin hvw).mpr hl⟩
    · intro hs
      refine (hs ⟨w, hw, hpast⟩).imp_right (Or.imp ?_ ?_)
      · rintro ⟨v, hv, hl⟩
        have hvw : v ≠ w := fun heq => hnot (heq ▸ hl)
        exact ⟨v, hv, hvw, (hp.looks_iff hvw).mp hl⟩
      · rintro ⟨v, hv, hl⟩
        have hvw : v ≠ w := fun heq => hl.2 (heq ▸ hpast)
        exact ⟨v, hv, (hp.sleepsWithin hvw).mp hl⟩

/-- Nobody falls asleep or wakes up. -/
theorem Passes.spares_iff (h : Passes s t w) (hs : s.io.phase w ≠ .asleep)
    (ht : t.io.phase w ≠ .asleep) (hbytes : t.io.bytes = s.io.bytes)
    (hsince : t.since = s.since) (htimeout : t.timeout = s.timeout)
    (hlooks : looks' w ↔ looks w) (hother : ∀ v, v ≠ w → (looks' v ↔ looks v)) :
    t.Spares ds looks' ↔ s.Spares ds looks := by
  have hstill : Still s t := by
    refine ⟨h.threads, fun v => ?_, hsince, htimeout⟩
    by_cases hv : v = w
    · exact hv ▸ iff_of_false ht hs
    · rw [h.phase v hv]
  refine hstill.spares_iff (fun _ => Iff.rfl) (by rw [Announced, Announced, hbytes, h.due_iff])
    fun v _ => ?_
  by_cases hv : v = w
  · exact hv ▸ hlooks
  · exact hother v hv

theorem guard_stop (hw : w < s.io.threads) {now : UInt64} (h : s.stop w now = some t) :
    WakeupGuard s (.stop w now) ↔ t.Spares t.manager.dues t.Looks := by
  obtain ⟨-, h⟩ := (Option.ite_none_right_eq_some ..).mp h
  simp only [IOWorkers.stop] at h
  split at h
  case h_2 => cases h
  rename_i hphase
  split at h
  case isFalse => cases h
  rw [Option.map_some, Option.some.injEq] at h
  have hnew : t.io.phase w = .scan := by rw [← h]; exact IOWorkers.phase_setPhase_self ..
  have hterm : t.io.idleTerm w = true := by rw [← h]; exact Function.update_self ..
  have hp : Passes s t w := by
    refine ⟨⟨hw, h ▸ rfl, fun v hv => ?_⟩, by simp [hphase, IOPhase.tickling],
      by simp [hnew, IOPhase.tickling], h ▸ rfl, h ▸ rfl, h ▸ rfl, h ▸ rfl, fun v hv => ?_,
      fun _ _ => h ▸ rfl, fun _ _ => h ▸ rfl, fun _ _ => h ▸ rfl, by simp [Given, hnew, hphase]⟩
    · rw [← h]
      exact IOWorkers.phase_setPhase_ne _ _ hv
    · rw [← h]
      exact Function.update_of_ne hv ..
  have hdues : t.manager.dues = s.manager.dues := by
    rw [← h]
    exact dues_getNextTimer ..
  rw [hdues]
  by_cases hset : s.manager.set = []
  · refine iff_of_true (Or.inl hset) ?_
    rintro ⟨v, -, -, d, hd, -⟩
    simp [TimerManager.dues, hset] at hd
  · have hguard : WakeupGuard s (.stop w now) ↔
        s.Spares s.manager.dues fun v => v ≠ w ∧ s.Looks v := or_iff_right hset
    rw [hguard]
    refine (hp.spares_iff (by simp [hphase]) (by simp [hnew]) (h ▸ rfl) (h ▸ rfl) (h ▸ rfl) ?_
      fun v hv => (hp.looks_iff hv).trans (by simp [hv])).symm
    simp [Looks, IOWorkers.looks, hterm]

theorem guard_wake (hw : w < s.io.threads) {tickled : Bool} (h : s.wake w tickled = some t) :
    WakeupGuard s (.wake w tickled) ↔ t.Spares t.manager.dues t.Looks := by
  simp only [TimerWorkers.wake, IOWorkers.wake] at h
  split at h
  case h_2 => cases h
  rename_i hphase
  split at h
  case isTrue => cases h
  rename_i hpipe
  rw [Option.map_some, Option.some.injEq] at h
  have hnew : t.io.phase w = .woken tickled := by
    rw [← h]
    exact IOWorkers.phase_setPhase_self ..
  have hdue : t.collecting w = .due := by rw [← h]; exact Function.update_self ..
  have hgiven : ¬t.Given w := fun hg => by simp [Given, hdue] at hg
  have hp : Passes s t w := by
    refine ⟨⟨hw, h ▸ rfl, fun v hv => ?_⟩, by simp [hphase, IOPhase.tickling],
      by simp [hnew, IOPhase.tickling], h ▸ rfl, h ▸ rfl, h ▸ rfl, h ▸ rfl, fun _ _ => h ▸ rfl,
      fun v hv => ?_, fun _ _ => h ▸ rfl, fun _ _ => h ▸ rfl,
      iff_of_false hgiven (not_given (by simp [hphase]))⟩
    · rw [← h]
      exact IOWorkers.phase_setPhase_ne _ _ hv
    · rw [← h]
      exact Function.update_of_ne hv ..
  have hbytes : t.io.bytes = s.io.bytes := h ▸ rfl
  have hdues : t.manager.dues = s.manager.dues := h ▸ rfl
  rw [hdues]
  by_cases htickled : tickled = true
  · refine iff_of_true (Or.inl htickled) (spares_of_announced (Or.inl ?_))
    rw [hbytes]
    exact Nat.pos_of_ne_zero fun hzero => hpipe ⟨htickled, hzero⟩
  · have hguard : WakeupGuard s (.wake w tickled) ↔ ((∃ v < s.io.threads, v ≠ w ∧ s.Late v) →
        s.Announced ∨ s.io.idleTerm w = false ∧ s.io.free w = true ∨
          (∃ v < s.io.threads, s.Looks v) ∨ ∃ v < s.io.threads, v ≠ w ∧ s.Timely v) :=
      or_iff_right htickled
    have hawake : ∀ ds, ¬t.SleepsPast ds w := fun ds hpast => by
      rw [SleepsPast, hnew] at hpast
      simp at hpast
    have hlate : (∃ v < t.io.threads, t.SleepsPast s.manager.dues v) ↔
        ∃ v < s.io.threads, v ≠ w ∧ s.Late v := by
      rw [hp.threads]
      refine exists_congr fun v => and_congr_right fun _ => ?_
      by_cases hv : v = w
      · subst hv
        exact iff_of_false (hawake _) (by simp)
      · rw [hp.sleepsPast hv, Late, and_iff_right hv]
    have hlooks : (∃ v < t.io.threads, t.Looks v) ↔
        s.io.idleTerm w = false ∧ s.io.free w = true ∨ ∃ v < s.io.threads, s.Looks v := by
      have hself : t.Looks w ↔ s.io.idleTerm w = false ∧ s.io.free w = true := by
        have hidle : t.io.idleTerm = s.io.idleTerm := h ▸ rfl
        have hfree : t.io.free w = s.io.free w := by
          rw [← h]
          rfl
        simp only [Looks, hgiven, not_false_eq_true, true_and, IOWorkers.looks, hnew, hidle, hfree,
          IOPhase.looks, Bool.and_eq_true, Bool.not_eq_true']
      have hasleep : ¬s.Looks w := fun hl => by
        have hlooks := hl.2
        simp [IOWorkers.looks, hphase, IOPhase.looks] at hlooks
      rw [hp.threads]
      constructor
      · rintro ⟨v, hv, hl⟩
        by_cases hvw : v = w
        · exact Or.inl (hself.mp (hvw ▸ hl))
        · exact Or.inr ⟨v, hv, (hp.looks_iff hvw).mp hl⟩
      · rintro (hl | ⟨v, hv, hl⟩)
        · exact ⟨w, hw, hself.mpr hl⟩
        · exact ⟨v, hv, (hp.looks_iff (fun heq => hasleep (heq ▸ hl))).mpr hl⟩
    have htimely : (∃ v < t.io.threads, t.SleepsWithin s.manager.dues v) ↔
        ∃ v < s.io.threads, v ≠ w ∧ s.Timely v := by
      rw [hp.threads]
      refine exists_congr fun v => and_congr_right fun _ => ?_
      by_cases hv : v = w
      · subst hv
        exact iff_of_false (fun hl => by simp [SleepsWithin, hnew] at hl) (by simp)
      · rw [hp.sleepsWithin hv, Timely, and_iff_right hv]
    rw [hguard, Spares, hlate, hlooks, htimely, Announced, Announced, hbytes, hp.due_iff]
    simp only [or_assoc]

theorem mem_duesLeft {m : TimerManager} (hm : m.Inv) {now : UInt64} {addr : Nat} (d : UInt64) :
    d ∈ (m.listExpiredCb now addr).1.dues ↔ d ∈ m.duesLeft now addr := by
  simp only [TimerManager.dues, TimerManager.duesLeft, List.mem_map, List.mem_filterMap,
    TimerManager.mem_listExpiredCb hm.toOrdered, TimerManager.timers_listExpiredCb hm.toOrdered]
  constructor
  · rintro ⟨i, ⟨hi, hrec⟩, rfl⟩
    refine ⟨i, hi, ?_⟩
    split
    · rename_i hexpired
      simp [TimerManager.collectedTimer, hrec hexpired]
    · rfl
  · rintro ⟨i, hi, hd⟩
    split at hd
    · rename_i hexpired
      simp only [Option.ite_none_right_eq_some, Option.some.injEq] at hd
      exact ⟨i, ⟨hi, fun _ => hd.1⟩, by simp [hexpired, TimerManager.collectedTimer, hd.1, hd.2]⟩
    · rename_i hexpired
      cases hd
      exact ⟨i, ⟨hi, fun h => absurd h hexpired⟩, by simp [hexpired]⟩

theorem guard_collect (hm : s.manager.Inv) (hs : s.Spares s.manager.dues s.Looks)
    (hw : w < s.io.threads) {now : UInt64} {addr : Nat} (h : s.collect w now addr = some t) :
    WakeupGuard s (.collect w now addr) ↔ t.Spares t.manager.dues t.Looks := by
  simp only [TimerWorkers.collect] at h
  split at h
  case h_2 => cases h
  rename_i tickled hphase hdue
  obtain ⟨-, h⟩ := (Option.ite_none_right_eq_some ..).mp h
  rw [Option.some.injEq] at h
  obtain ⟨-, -, -, hcbs⟩ := hm.listExpiredCb now addr
  have hio : t.io = s.io := h ▸ rfl
  have hstill : Still s t := ⟨by rw [hio], fun v => by rw [hio], h ▸ rfl, h ▸ rfl⟩
  have hdues : ∀ d, d ∈ t.manager.dues ↔ d ∈ s.manager.duesLeft now addr := fun d => by
    rw [← h]
    exact mem_duesLeft hm d
  have hother : ∀ v, v ≠ w → t.collecting v = s.collecting v := fun v hv => by
    rw [← h]
    exact Function.update_of_ne hv ..
  have hlooks : ∀ v, v ≠ w → (t.Looks v ↔ s.Looks v) := fun v hv =>
    looks_other (by rw [hio]) (hother v hv) (by rw [hio]) (by rw [hio]) (by rw [hio])
  have hself : t.collecting w = if s.manager.expired now addr = [] then .done else
      .given ((s.manager.expired now addr).map fun i => (s.manager.timers i).cb) := by
    rw [← h]
    simp only [Function.update_self, hcbs, List.map_eq_nil_iff]
  by_cases hexpired : s.manager.expired now addr = []
  · -- nothing has expired
    refine iff_of_true (Or.inl hexpired) (hstill.spares hs (fun d hd => ?_) (fun ha => ?_)
      fun v _ hl => Or.inr ?_)
    · rw [hdues, TimerManager.duesLeft] at hd
      refine ⟨d, ?_, UInt64.le_refl d⟩
      simpa [hexpired, TimerManager.dues] using hd
    · have hgiven : ∀ v, s.Given v → t.Given v := by
        rintro v ⟨hp, cbs, hg⟩
        have hv : v ≠ w := by
          rintro rfl
          rw [hdue] at hg
          cases hg
        exact ⟨hio ▸ hp, cbs, by rw [hother v hv, hg]⟩
      have hfronts : t.fronts = s.fronts := h ▸ rfl
      rw [Announced, Due, hio, hfronts]
      exact ha.imp_right (Or.imp_right (Or.imp_right fun ⟨hnil, v, hv, hg⟩ =>
        ⟨hnil, v, hv, hgiven v hg⟩))
    · by_cases hv : v = w
      · subst hv
        rw [if_pos hexpired] at hself
        exact ⟨fun hg => by simp [Given, hself] at hg, by rw [hio]; exact hl.2⟩
      · exact (hlooks v hv).mpr hl
  · rw [if_neg hexpired] at hself
    have hgiven : t.Given w := ⟨⟨tickled, by rw [hio, hphase]⟩, _, hself⟩
    by_cases hnil : s.io.queue = []
    · refine iff_of_true (Or.inr (Or.inl hnil)) (spares_of_announced (Or.inr ?_))
      exact Or.inr (Or.inr ⟨by rw [hio, hnil], w, by rw [hio]; exact hw, hgiven⟩)
    · have hguard : WakeupGuard s (.collect w now addr) ↔
          s.Spares (s.manager.duesLeft now addr) fun v => v ≠ w ∧ s.Looks v :=
        (or_iff_right hexpired).trans (or_iff_right hnil)
      rw [hguard]
      refine (hstill.spares_iff hdues ?_ fun v _ => ?_).symm
      · exact announced_congr (by rw [hio]) (h ▸ rfl) (by rw [hio]) hnil (by rwa [hio])
      · by_cases hv : v = w
        · subst hv
          exact iff_of_false (fun hl => hl.1 hgiven) (by simp)
        · rw [hlooks v hv, and_iff_right hv]

theorem freeOf_entries {io : IOWorkers} {cbs : List (Option TimerCallback)} :
    io.freeOf (entries cbs) w = true ↔ entries cbs = [] := by
  rw [IOWorkers.freeOf_iff, List.eq_nil_iff_forall_not_mem]
  refine forall_congr' fun e => ⟨fun h he => ?_, fun h he => absurd he h⟩
  obtain ⟨cb, -, rfl⟩ := List.mem_map.mp he
  simp [FiberAndThread.mayRun, Job.executable] at h
  exact h he

theorem guard_push (h : s.push w = some t) :
    WakeupGuard s (.push w) ↔ t.Spares t.manager.dues t.Looks := by
  simp only [TimerWorkers.push] at h
  split at h
  case h_2 => cases h
  rename_i tickled cbs hphase hcbs
  rw [Option.some.injEq] at h
  have hthreads : t.io.threads = s.io.threads := h ▸ rfl
  have hphases : t.io.phase = s.io.phase := h ▸ rfl
  have hstill : Still s t := ⟨hthreads, fun v => by rw [hphases], h ▸ rfl, h ▸ rfl⟩
  have hqueue : t.io.queue = s.io.queue ++ entries cbs := h ▸ rfl
  have htickles : t.io.tickles = if s.io.queue = [] then s.io.tickles + 1 else s.io.tickles :=
    h ▸ rfl
  have hdues : t.manager.dues = s.manager.dues := h ▸ rfl
  have hself : t.collecting w = .done := by rw [← h]; exact Function.update_self ..
  rw [hdues]
  by_cases hnil : s.io.queue = []
  · refine iff_of_true (Or.inl hnil) (spares_of_announced (Or.inr (Or.inr (Or.inl (Or.inl ?_)))))
    rw [htickles, if_pos hnil]
    exact Nat.succ_pos _
  · rw [if_neg hnil] at htickles
    have hguard : WakeupGuard s (.push w) ↔ s.Spares s.manager.dues fun v =>
        s.LooksBefore (entries cbs) v ∨ v = w ∧ s.io.looks w = true ∧ entries cbs = [] := by
      refine (or_iff_right hnil).trans ⟨fun h => h cbs hcbs, fun h cbs' hcbs' => ?_⟩
      rw [hcbs] at hcbs'
      cases hcbs'
      exact h
    rw [hguard]
    refine (hstill.spares_iff (fun _ => Iff.rfl) ?_ fun v _ => ?_).symm
    · refine announced_congr (h ▸ rfl) (h ▸ rfl) ?_ hnil (by simp [hqueue, hnil])
      rw [IOWorkers.Pending, IOWorkers.Pending, htickles, hphases, hthreads]
    · by_cases hv : v = w
      · subst hv
        have hgiven : s.Given v := ⟨⟨tickled, hphase⟩, cbs, hcbs⟩
        have hnot : ¬t.Given v := fun hg => by simp [Given, hself] at hg
        have hbefore : ¬s.LooksBefore (entries cbs) v := fun hl => hl.1.1 hgiven
        rw [Looks, and_iff_right hnot, or_iff_right hbefore,
          IOWorkers.looks_append (by rw [hphases]) (h ▸ rfl) (h ▸ rfl) hqueue]
        simp [hphase, IOPhase.scanned, freeOf_entries]
      · rw [looks_push (by rw [hphases]) ?_ (h ▸ rfl) (h ▸ rfl) hqueue]
        · exact (or_iff_left fun h => hv h.1).symm
        · rw [← h]
          exact Function.update_of_ne hv ..

theorem guard_drain (hw : w < s.io.threads) (h : s.drain w = some t) :
    WakeupGuard s (.drain w) ↔ t.Spares t.manager.dues t.Looks := by
  obtain ⟨hdone, h⟩ := (Option.ite_none_right_eq_some ..).mp h
  simp only [IOWorkers.drain] at h
  split at h
  case h_2 => cases h
  rename_i hphase
  rw [Option.map_some, Option.some.injEq] at h
  have hnew : t.io.phase w = .woken false := by
    rw [← h]
    exact IOWorkers.phase_setPhase_self ..
  have hcollecting : t.collecting = s.collecting := h ▸ rfl
  have hp : Passes s t w := by
    refine ⟨⟨hw, h ▸ rfl, fun v hv => ?_⟩, by simp [hphase, IOPhase.tickling],
      by simp [hnew, IOPhase.tickling], h ▸ rfl, h ▸ rfl, h ▸ rfl, h ▸ rfl, fun _ _ => h ▸ rfl,
      fun _ _ => h ▸ rfl, fun _ _ => h ▸ rfl, fun _ _ => h ▸ rfl, by
        simp [Given, hcollecting, hdone]⟩
    rw [← h]
    exact IOWorkers.phase_setPhase_ne _ _ hv
  have hstill : Still s t := by
    refine ⟨hp.threads, fun v => ?_, h ▸ rfl, h ▸ rfl⟩
    by_cases hv : v = w
    · exact hv ▸ iff_of_false (by simp [hnew]) (by simp [hphase])
    · rw [hp.phase v hv]
  have hlooks : ∀ v, t.Looks v ↔ s.Looks v := fun v => by
    by_cases hv : v = w
    · subst hv
      have hidle : t.io.idleTerm v = s.io.idleTerm v := h ▸ rfl
      have hfree : t.io.free v = s.io.free v := by
        rw [← h]
        rfl
      rw [Looks, Looks, hp.given, IOWorkers.looks, IOWorkers.looks, hnew, hphase, hidle, hfree]
      rfl
    · exact hp.looks_iff hv
  have hbytes : t.io.bytes = 0 := h ▸ rfl
  have hannounced : t.Announced ↔ s.Due := by
    rw [Announced, hbytes, hp.due_iff]
    simp
  have hdues : t.manager.dues = s.manager.dues := h ▸ rfl
  have hrest : t.Spares t.manager.dues t.Looks ↔ ((∃ v < s.io.threads, s.Late v) →
      s.Due ∨ (∃ v < s.io.threads, s.Looks v) ∨ ∃ v < s.io.threads, s.Timely v) := by
    simp only [Spares, hp.threads, hdues, hstill.sleepsPast (fun _ => Iff.rfl),
      hstill.sleepsWithin (fun _ => Iff.rfl), hannounced, hlooks]
    exact Iff.rfl
  rw [hrest]
  exact or_iff_right_of_imp fun hl _ => Or.inr (Or.inl ⟨w, hw, hl⟩)

theorem spares_leaveIdle (hs : s.Spares s.manager.dues s.Looks) (hw : w < s.io.threads)
    (h : s.leaveIdle w = some t) : t.Spares t.manager.dues t.Looks := by
  obtain ⟨hdone, h⟩ := (Option.ite_none_right_eq_some ..).mp h
  simp only [IOWorkers.leaveIdle] at h
  split at h
  case h_2 => cases h
  rename_i hphase
  rw [Option.map_some, Option.some.injEq] at h
  have hnew : t.io.phase w = .scan := by rw [← h]; exact IOWorkers.phase_setPhase_self ..
  have hcollecting : t.collecting = s.collecting := h ▸ rfl
  have hp : Passes s t w := by
    refine ⟨⟨hw, h ▸ rfl, fun v hv => ?_⟩, by simp [hphase, IOPhase.tickling],
      by simp [hnew, IOPhase.tickling], h ▸ rfl, h ▸ rfl, h ▸ rfl, h ▸ rfl, fun _ _ => h ▸ rfl,
      fun _ _ => h ▸ rfl, fun _ _ => h ▸ rfl, fun _ _ => h ▸ rfl, by
        simp [Given, hcollecting, hdone]⟩
    rw [← h]
    exact IOWorkers.phase_setPhase_ne _ _ hv
  have hdues : t.manager.dues = s.manager.dues := h ▸ rfl
  rw [hdues]
  refine (hp.spares_iff (by simp [hphase]) (by simp [hnew]) (h ▸ rfl) (h ▸ rfl) (h ▸ rfl) ?_
    fun v hv => hp.looks_iff hv).mpr hs
  have hidle : t.io.idleTerm w = s.io.idleTerm w := h ▸ rfl
  have hfree : t.io.free w = s.io.free w := by
    rw [← h]
    rfl
  rw [Looks, Looks, hp.given, IOWorkers.looks, IOWorkers.looks, hnew, hphase, hidle, hfree]
  rfl

/-! ### Guarded runs -/

/-- What guarded runs keep. -/
structure Inv (s : TimerWorkers) : Prop where
  manager : s.manager.Inv
  counts : s.io.Counts
  spares : s.Spares s.manager.dues s.Looks

/-- The timers stay ordered, and the idle workers counted, in every run. -/
theorem Inv.sound (h : s.Inv) {a : WakeupAction} (hs : s.step a = some t) :
    t.manager.Inv ∧ t.io.Counts := by
  obtain ⟨hworker, hs⟩ := (Option.ite_none_left_eq_some ..).mp hs
  have hlt : ∀ w, a.worker = some w → w < s.io.threads := fun w ha => by simpa [ha] using hworker
  cases a with
  | addTimer ms cb recurring now addr =>
    obtain ⟨hfresh, heq⟩ := (Option.ite_none_right_eq_some ..).mp hs
    cases heq
    exact ⟨(h.manager.addTimer hfresh).1, h.counts⟩
  | frontTickle =>
    obtain ⟨-, heq⟩ := (Option.ite_none_right_eq_some ..).mp hs
    cases heq
    exact ⟨h.manager, h.counts.tickle⟩
  | cancel i =>
    obtain ⟨hi, hcancel⟩ := (Option.ite_none_right_eq_some ..).mp hs
    obtain ⟨⟨m, ok⟩, hm, heq⟩ := Option.map_eq_some_iff.mp hcancel
    cases heq
    obtain ⟨m', ok', heq, hinv, -⟩ := h.manager.cancel hi
    rw [hm] at heq
    cases heq
    exact ⟨hinv, h.counts⟩
  | loop a =>
    obtain ⟨-, hs⟩ := (Option.ite_none_right_eq_some ..).mp hs
    obtain ⟨io, hio, heq⟩ := Option.map_eq_some_iff.mp hs
    cases heq
    exact ⟨h.manager, IOWorkers.counts_step h.counts hio⟩
  | evaluate w now =>
    obtain ⟨io, hio, heq⟩ := Option.map_eq_some_iff.mp hs
    cases heq
    exact ⟨(h.manager.getNextTimer now).1,
      IOWorkers.counts_idle h.counts (hlt w rfl) (.inr (.inl hio))⟩
  | stop w now =>
    obtain ⟨-, hs⟩ := (Option.ite_none_right_eq_some ..).mp hs
    obtain ⟨io, hio, heq⟩ := Option.map_eq_some_iff.mp hs
    cases heq
    exact ⟨(h.manager.getNextTimer now).1,
      IOWorkers.counts_idle h.counts (hlt w rfl) (.inr (.inr (.inl hio)))⟩
  | wake w tickled =>
    obtain ⟨io, hio, heq⟩ := Option.map_eq_some_iff.mp hs
    cases heq
    exact ⟨h.manager,
      IOWorkers.counts_idle h.counts (hlt w rfl) (.inr (.inr (.inr (.inl ⟨tickled, hio⟩))))⟩
  | collect w now addr =>
    simp only [TimerWorkers.collect] at hs
    split at hs
    · obtain ⟨-, heq⟩ := (Option.ite_none_right_eq_some ..).mp hs
      cases heq
      exact ⟨(h.manager.listExpiredCb now addr).1, h.counts⟩
    · cases hs
  | push w =>
    simp only [TimerWorkers.push] at hs
    split at hs
    · cases hs
      exact ⟨h.manager, h.counts⟩
    · cases hs
  | drain w =>
    obtain ⟨-, hs⟩ := (Option.ite_none_right_eq_some ..).mp hs
    obtain ⟨io, hio, heq⟩ := Option.map_eq_some_iff.mp hs
    cases heq
    exact ⟨h.manager,
      IOWorkers.counts_idle h.counts (hlt w rfl) (.inr (.inr (.inr (.inr (.inl hio)))))⟩
  | leaveIdle w =>
    obtain ⟨-, hs⟩ := (Option.ite_none_right_eq_some ..).mp hs
    obtain ⟨io, hio, heq⟩ := Option.map_eq_some_iff.mp hs
    cases heq
    exact ⟨h.manager,
      IOWorkers.counts_idle h.counts (hlt w rfl) (.inr (.inr (.inr (.inr (.inr hio)))))⟩

/-- A step keeps the timers covered exactly if it meets the guard. -/
theorem Inv.guard_iff (h : s.Inv) {a : WakeupAction} (hs : s.step a = some t) :
    WakeupGuard s a ↔ t.Spares t.manager.dues t.Looks := by
  obtain ⟨hworker, hs⟩ := (Option.ite_none_left_eq_some ..).mp hs
  have hlt : ∀ w, a.worker = some w → w < s.io.threads := fun w ha => by simpa [ha] using hworker
  cases a with
  | addTimer ms cb recurring now addr => exact guard_addTimer h.manager h.spares hs
  | frontTickle => exact iff_of_true trivial (spares_frontTickle h.counts hs)
  | cancel i => exact iff_of_true trivial (spares_cancel h.spares hs)
  | loop a =>
    obtain ⟨ha, hs⟩ := (Option.ite_none_right_eq_some ..).mp hs
    obtain ⟨io, hio, heq⟩ := Option.map_eq_some_iff.mp hs
    cases heq
    exact guard_loop h.counts h.spares ha hio
  | evaluate w now => exact guard_evaluate h.manager (hlt w rfl) hs
  | stop w now => exact guard_stop (hlt w rfl) hs
  | wake w tickled => exact guard_wake (hlt w rfl) hs
  | collect w now addr => exact guard_collect h.manager h.spares (hlt w rfl) hs
  | push w => exact guard_push hs
  | drain w => exact guard_drain (hlt w rfl) hs
  | leaveIdle w => exact iff_of_true trivial (spares_leaveIdle h.spares (hlt w rfl) hs)

theorem inv_of_reach (h : wakeupMachine.Reach WakeupGuard s) : s.Inv := by
  apply Machine.Reach.invariant _ _ h
  · rintro _ ⟨threads, previous, rfl⟩
    refine ⟨(TimerRun.Inv.initial previous).manager, (IOWorkers.Inv.initial threads).counts, ?_⟩
    rintro ⟨w, -, -, d, hd, -⟩
    cases hd
  · intro s a t hs hguard hstep
    obtain ⟨hmanager, hcounts⟩ := hs.sound hstep
    exact ⟨hmanager, hcounts, (hs.guard_iff hstep).mp hguard⟩

end TimerWorkers

end CppServerFramework.Async

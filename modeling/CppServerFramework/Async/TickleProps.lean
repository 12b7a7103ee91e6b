import Mathlib.Algebra.BigOperators.Group.Finset.Piecewise
import Mathlib.Algebra.Order.BigOperators.Group.Finset
import CppServerFramework.Async.Tickle

/-!
# No task waits for a sleeping worker

A task that a worker at its idle fiber could run is covered while a byte is in the pipe, a
call of `tickle` is due, or another worker that may run the task scans the queue next.  The
guard names the steps that can take the last cover away; along guarded runs every such task
stays covered.
-/

namespace CppServerFramework.Async

namespace IOPhase

/-- The worker sleeps, or sleeps before it scans the queue again. -/
def idler : IOPhase → Bool
  | .passed none | .beforeIdle | .idling | .asleep => true
  | _ => false

/-- The worker calls `tickle` next. -/
def tickling : IOPhase → Bool
  | .passed _ | .requeued => true
  | _ => false

/-- The worker scans the queue before it sleeps and before it runs a task; a fiber it has
    taken has ended. -/
def bound (state : Nat → FiberState) : IOPhase → Bool
  | .scan | .woken _ | .requeue _ | .requeued => true
  | .claimed (.fiber f) | .passed (some (.fiber f)) => (state f).ended
  | _ => false

/-- The worker counts in `m_idleThreadCount`. -/
def counted : IOPhase → Bool
  | .idling | .asleep | .woken _ => true
  | _ => false

end IOPhase

namespace IOWorkers

variable {s t : IOWorkers} {w : Nat} {e : FiberAndThread}

/-- A worker that is asleep or falls asleep could run the entry. -/
def Open (s : IOWorkers) (e : FiberAndThread) : Prop :=
  e.task.executable s.state = true ∧
    ∃ w < s.threads, (s.phase w).idler = true ∧ e.mayRun w = true

/-- A call of `tickle` is due. -/
def Pending (s : IOWorkers) : Prop :=
  0 < s.tickles ∨ ∃ w < s.threads, (s.phase w).tickling = true

/-- A worker that may run the entry scans the queue next. -/
def Expected (s : IOWorkers) (e : FiberAndThread) : Prop :=
  ∃ w < s.threads, (s.phase w).bound s.state = true ∧ e.mayRun w = true

def Covered (s : IOWorkers) (e : FiberAndThread) : Prop :=
  0 < s.bytes ∨ s.Pending ∨ s.Expected e

/-- No wake-up is lost: when a worker asleep in `epoll_wait` could run an entry, a byte is in
    the pipe, a call of `tickle` that writes one is due, or an awake worker that may run the
    entry scans the queue before it sleeps or runs another task. -/
def NoLostWakeup (s : IOWorkers) : Prop :=
  ∀ e ∈ s.queue, e.task.executable s.state = true →
    ∀ w < s.threads, s.phase w = .asleep → e.mayRun w = true →
      0 < s.bytes ∨ s.Pending ∧ 0 < s.idleThreadCount ∨ s.Expected e

end IOWorkers

/-- The condition on a step.  Where an entry is open that nothing else covers:
    an entry is not pushed behind others; a worker does not take an entry and leave it behind;
    `tickle` is not called while no idle worker is counted; the pipe is not drained by a worker
    that may not run it; and its fiber does not come back on such a worker. -/
def TickleGuard (s : IOWorkers) : TickleAction → Prop
  | .schedule es => s.queue = [] ∨ ∀ e ∈ es, s.Open e → s.Covered e
  | .scheduleTickle => 0 < s.idleThreadCount ∨ ∀ e ∈ s.queue, s.Open e →
      0 < s.bytes ∨ 1 < s.tickles ∨ (∃ w < s.threads, (s.phase w).tickling = true) ∨ s.Expected e
  | .workerTickle w => 0 < s.idleThreadCount ∨ ∀ e ∈ s.queue, s.Open e →
      0 < s.bytes ∨ 0 < s.tickles ∨
      (∃ w' < s.threads, w' ≠ w ∧ (s.phase w').tickling = true) ∨ s.Expected e
  | .scan w => ∀ l e r, s.queue = l ++ e :: r →
      (∀ x ∈ l, x.mayRun w = true ∧ x.task.isExec s.state = true) →
      e.mayRun w = true → e.task.executable s.state = true →
      ∀ x ∈ r, s.Open x → 0 < s.bytes ∨ s.Pending ∨
        ∃ w' < s.threads, w' ≠ w ∧ (s.phase w').bound s.state = true ∧ x.mayRun w' = true
  | .drain _ => ∀ e ∈ s.queue, s.Open e → s.Pending ∨ s.Expected e
  | .finish w _ => ∀ f, s.phase w = .running f → ∀ e ∈ s.queue, e.task = .fiber f →
      (∃ w' < s.threads, (s.phase w').idler = true ∧ e.mayRun w' = true) →
      e.mayRun w = true ∨ s.Covered e
  | _ => True

namespace IOWorkers

variable {s t : IOWorkers} {w : Nat} {e : FiberAndThread}

/-! ## The scan -/

theorem scanQueue_rest (state : Nat → FiberState) (w : Nat) (queue : List FiberAndThread) :
    (scanQueue state w queue).rest.Sublist queue := by
  induction queue with
  | nil => exact List.Sublist.refl _
  | cons d es ih =>
    simp only [scanQueue]
    split
    · exact ih.cons_cons d
    · split
      · exact ih.cons_cons d
      · exact List.sublist_cons_self d es

/-- A scan that passes no pinned entry and finds nothing leaves only fibers that run. -/
theorem scanQueue_none {state : Nat → FiberState} {queue : List FiberAndThread}
    (hft : (scanQueue state w queue).ft = none)
    (htickle : (scanQueue state w queue).tickleMe = false) :
    ∀ x ∈ queue, x.task.isExec state = true := by
  induction queue with
  | nil => simp
  | cons d es ih =>
    simp only [scanQueue] at hft htickle
    split at htickle
    · cases htickle
    · rename_i hpin
      simp only [hpin] at hft
      split at htickle
      · rename_i hexec
        simp only [hexec] at hft
        rintro x (_ | ⟨_, hx⟩)
        · exact hexec
        · exact ih hft htickle x hx
      · rename_i hexec
        simp [hexec] at hft

/-- A scan that passes no pinned entry takes the first entry whose fiber does not run. -/
theorem scanQueue_takes {state : Nat → FiberState} {queue : List FiberAndThread}
    (hft : (scanQueue state w queue).ft = some e)
    (htickle : (scanQueue state w queue).tickleMe = false) :
    ∃ l r, queue = l ++ e :: r ∧ (scanQueue state w queue).rest = l ++ r ∧
      (∀ x ∈ l, x.mayRun w = true ∧ x.task.isExec state = true) ∧
      e.mayRun w = true ∧ e.task.isExec state = false := by
  induction queue with
  | nil => cases hft
  | cons d es ih =>
    simp only [scanQueue] at hft htickle ⊢
    by_cases hpin : d.mayRun w = true
    · by_cases hexec : d.task.isExec state = true
      · simp only [hpin, hexec, Bool.not_true, Bool.false_eq_true, if_false, if_true]
          at hft htickle ⊢
        obtain ⟨l, r, rfl, hrest, hpassed, hrun, hnot⟩ := ih hft htickle
        refine ⟨d :: l, r, rfl, by rw [hrest]; rfl, ?_, hrun, hnot⟩
        rintro x (_ | ⟨_, hx⟩)
        · exact ⟨hpin, hexec⟩
        · exact hpassed x hx
      · simp only [hpin, hexec, Bool.not_true, Bool.false_eq_true, if_false] at hft ⊢
        cases hft
        exact ⟨[], es, rfl, rfl, by simp, hpin, by simpa using hexec⟩
    · simp only [hpin, Bool.not_false, if_true] at htickle
      cases htickle

theorem not_executable_of_isExec {state : Nat → FiberState} {j : Job}
    (h : j.isExec state = true) : j.executable state = false := by
  cases j with
  | fiber f =>
    simp only [Job.isExec, decide_eq_true_eq] at h
    simp [Job.executable, h]
  | cb => cases h

/-- A task that a worker takes and does not run is a fiber that has ended. -/
theorem ended_of_not_executable {state : Nat → FiberState} {j : Job}
    (hexec : j.isExec state = false) (h : j.executable state = false) :
    ∃ f, j = .fiber f ∧ (state f).ended = true := by
  cases j with
  | fiber f =>
    simp only [Job.isExec, decide_eq_false_iff_not] at hexec
    exact ⟨f, rfl, by simpa [Job.executable, hexec] using h⟩
  | cb => cases h

/-! ## One worker moves -/

@[simp] theorem phase_setPhase_self (s : IOWorkers) (w : Nat) (p : IOPhase) :
    (s.setPhase w p).phase w = p := Function.update_self ..

theorem phase_setPhase_ne (s : IOWorkers) {w w' : Nat} (p : IOPhase) (h : w' ≠ w) :
    (s.setPhase w p).phase w' = s.phase w' := Function.update_of_ne h ..

/-- The workers other than `w` stand in `t` where they stand in `s`. -/
structure Moves (s t : IOWorkers) (w : Nat) : Prop where
  lt : w < s.threads
  threads : t.threads = s.threads
  phase : ∀ w', w' ≠ w → t.phase w' = s.phase w'

theorem Open.of_moves (h : Moves s t w) (ho : t.Open e)
    (hidler : (t.phase w).idler = true → (s.phase w).idler = true)
    (hexec : e.task.executable t.state = true → e.task.executable s.state = true) : s.Open e := by
  obtain ⟨he, v, hv, hi, hrun⟩ := ho
  refine ⟨hexec he, v, h.threads ▸ hv, ?_, hrun⟩
  by_cases hvw : v = w
  · subst hvw
    exact hidler hi
  · rwa [← h.phase v hvw]

theorem Expected.moves (h : Moves s t w) (he : s.Expected e)
    (hended : ∀ f, (s.state f).ended = true → (t.state f).ended = true)
    (hbound : (s.phase w).bound s.state = true → e.mayRun w = true →
      (t.phase w).bound t.state = true) : t.Expected e := by
  obtain ⟨v, hv, hb, hrun⟩ := he
  refine ⟨v, h.threads ▸ hv, ?_, hrun⟩
  by_cases hvw : v = w
  · subst hvw
    exact hbound hb hrun
  · rw [h.phase v hvw]
    revert hb
    fun_cases IOPhase.bound s.state (s.phase v) <;> simp_all [IOPhase.bound]

theorem Pending.moves (h : Moves s t w) (hp : s.Pending) (htickles : s.tickles ≤ t.tickles)
    (htickling : (s.phase w).tickling = true → (t.phase w).tickling = true) : t.Pending := by
  rcases hp with hn | ⟨v, hv, hv'⟩
  · exact Or.inl (hn.trans_le htickles)
  · refine Or.inr ⟨v, h.threads ▸ hv, ?_⟩
    by_cases hvw : v = w
    · subst hvw
      exact htickling hv'
    · rwa [h.phase v hvw]

theorem pending_of_tickling (hw : w < s.threads) (h : (s.phase w).tickling = true) : s.Pending :=
  Or.inr ⟨w, hw, h⟩

theorem moves_setPhase (hw : w < s.threads) (ht : t.threads = s.threads)
    (hp : t.phase = s.phase) (p : IOPhase) : Moves s (t.setPhase w p) w :=
  ⟨hw, ht, fun w' h => by rw [phase_setPhase_ne _ _ h, hp]⟩

/-! ## What is open stays covered -/

/-- Every entry that a worker asleep or falling asleep could run is covered. -/
def Covers (s : IOWorkers) : Prop := ∀ e ∈ s.queue, s.Open e → s.Covered e

theorem Covered.moves (h : Moves s t w) (hc : s.Covered e) (hbytes : s.bytes ≤ t.bytes)
    (htickles : s.tickles ≤ t.tickles)
    (htickling : (s.phase w).tickling = true → (t.phase w).tickling = true)
    (hended : ∀ f, (s.state f).ended = true → (t.state f).ended = true)
    (hbound : (s.phase w).bound s.state = true → e.mayRun w = true →
      (t.phase w).bound t.state = true) : t.Covered e := by
  rcases hc with hb | hp | he
  · exact Or.inl (hb.trans_le hbytes)
  · exact Or.inr (Or.inl (hp.moves h htickles htickling))
  · exact Or.inr (Or.inr (he.moves h hended hbound))

/-- A worker that stays or becomes bound to scan, and does not fall asleep, uncovers nothing. -/
theorem Covers.moves (hs : s.Covers) (h : Moves s t w) (hqueue : t.queue = s.queue)
    (hstate : t.state = s.state) (hbytes : t.bytes = s.bytes) (htickles : t.tickles = s.tickles)
    (hidler : (t.phase w).idler = true → (s.phase w).idler = true)
    (htickling : (s.phase w).tickling = true → (t.phase w).tickling = true)
    (hbound : (s.phase w).bound s.state = true → (t.phase w).bound s.state = true) :
    t.Covers := by
  intro e he ho
  rw [hqueue] at he
  have hopen := ho.of_moves h hidler (by rw [hstate]; exact id)
  exact (hs e he hopen).moves h hbytes.ge htickles.ge htickling (by rw [hstate]; exact fun _ => id)
    (by rw [hstate]; exact fun hb _ => hbound hb)

theorem Covers.schedule (hs : s.Covers) {es : List FiberAndThread}
    (hg : TickleGuard s (.schedule es)) : (s.schedule es).Covers := by
  intro e he ho
  have hle : s.tickles ≤ (s.schedule es).tickles := by
    simp only [IOWorkers.schedule]
    split <;> omega
  have hmono : s.Covered e → (s.schedule es).Covered e := fun hc =>
    hc.imp id fun hc => hc.imp (fun hp => hp.imp (fun hn => hn.trans_le hle) id) id
  rcases List.mem_append.mp he with hq | hes
  · exact hmono (hs e hq ho)
  · rcases hg with hempty | hcov
    · refine Or.inr (Or.inl (Or.inl ?_))
      simp [IOWorkers.schedule, hempty, List.ne_nil_of_mem hes]
    · exact hmono (hcov e hes ho)

theorem bytes_tickle_pos (h : 0 < s.idleThreadCount) : 0 < s.tickle.bytes := by
  rw [tickle, if_neg (by omega)]
  exact Nat.succ_pos _

theorem le_bytes_tickle (s : IOWorkers) : s.bytes ≤ s.tickle.bytes := by
  rw [tickle]
  split
  · exact le_rfl
  · exact Nat.le_succ _

@[simp] theorem tickle_fields (s : IOWorkers) : s.tickle.threads = s.threads ∧
    s.tickle.state = s.state ∧ s.tickle.queue = s.queue ∧ s.tickle.phase = s.phase ∧
    s.tickle.tickles = s.tickles ∧ s.tickle.idleThreadCount = s.idleThreadCount := by
  rw [tickle]
  split <;> simp

theorem Covers.tickle (hs : s.Covers) : s.tickle.Covers := by
  obtain ⟨hthreads, hstate, hqueue, hphase, htickles, -⟩ := tickle_fields s
  intro e he ho
  rw [Open, hthreads, hstate, hphase] at ho
  rw [Covered, Pending, Expected, hthreads, hstate, hphase, htickles]
  exact (hs e (hqueue ▸ he) ho).imp (fun hb => hb.trans_le (le_bytes_tickle s)) id

theorem covers_scheduleTickle (hg : TickleGuard s .scheduleTickle)
    (h : s.scheduleTickle = some t) : t.Covers := by
  simp only [IOWorkers.scheduleTickle, Option.ite_none_right_eq_some, Option.some.injEq] at h
  obtain ⟨-, rfl⟩ := h
  obtain ⟨hthreads, hstate, hqueue, hphase, htickles, -⟩ :=
    tickle_fields { s with tickles := s.tickles - 1 }
  intro e he ho
  rw [hqueue] at he
  rw [Open, hthreads, hstate, hphase] at ho
  rw [Covered, Pending, Expected, hthreads, hstate, hphase, htickles]
  rcases hg with hidle | hcov
  · exact Or.inl (bytes_tickle_pos hidle)
  · rcases hcov e he ho with hb | hn | hp | hx
    · exact Or.inl (hb.trans_le (le_bytes_tickle { s with tickles := s.tickles - 1 }))
    · exact Or.inr (Or.inl (Or.inl (by simp only; omega)))
    · exact Or.inr (Or.inl (Or.inr hp))
    · exact Or.inr (Or.inr hx)

theorem covers_workerTickle (hw : w < s.threads)
    (hg : TickleGuard s (.workerTickle w)) (h : s.workerTickle w = some t) : t.Covers := by
  obtain ⟨hthreads, hstate, hqueue, hphase, htickles, -⟩ := tickle_fields s
  have hmove : ∀ p, (p.idler = true → (s.phase w).idler = true) →
      ((s.phase w).bound s.state = true → p.bound s.state = true) →
      (s.tickle.setPhase w p).Covers := by
    intro p hidler hbound e he ho
    have hm : Moves s (s.tickle.setPhase w p) w := moves_setPhase hw hthreads hphase p
    have hopen : s.Open e := ho.of_moves hm (by simpa using hidler) (by
      change e.task.executable s.tickle.state = true → _
      rw [hstate]; exact id)
    rcases hg with hidle | hcov
    · exact Or.inl (bytes_tickle_pos hidle)
    · rcases hcov e (hqueue ▸ he) hopen with hb | hn | ⟨v, hv, hne, hp⟩ | hx
      · exact Or.inl (hb.trans_le (le_bytes_tickle s))
      · exact Or.inr (Or.inl (Or.inl (htickles ▸ hn)))
      · refine Or.inr (Or.inl (Or.inr ⟨v, hm.threads ▸ hv, ?_⟩))
        rw [hm.phase v hne]
        exact hp
      · have hended : (s.tickle.setPhase w p).state = s.state := hstate
        exact Or.inr (Or.inr (hx.moves hm (by rw [hended]; exact fun _ => id)
          (by rw [hended, phase_setPhase_self]; exact fun hb _ => hbound hb)))
  simp only [IOWorkers.workerTickle] at h
  split at h
  case h_1 t' hp =>
    cases h
    exact hmove _ (by simp [IOPhase.idler]) (by rw [hp]; cases t' <;> exact id)
  case h_2 hp =>
    cases h
    exact hmove _ (by simp [hp, IOPhase.idler]) (by simp [hp, IOPhase.bound])
  case h_3 hp =>
    cases h
    exact hmove _ (by simp [IOPhase.idler]) (by simp [IOPhase.bound])
  case h_4 => cases h

theorem Covers.scan (hs : s.Covers) (hw : w < s.threads) (hg : TickleGuard s (.scan w))
    (h : s.scan w = some t) : t.Covers := by
  simp only [IOWorkers.scan] at h
  split at h
  case h_2 => cases h
  rename_i hphase
  rw [Option.some.injEq] at h
  subst h
  set p : IOPhase := _ with hp
  change IOWorkers.Covers (({ s with queue := _ } : IOWorkers).setPhase w p)
  have hm : Moves s (({ s with queue := (scanQueue s.state w s.queue).rest } : IOWorkers).setPhase
    w p) w := ⟨hw, rfl, fun w' h => phase_setPhase_ne _ _ h⟩
  intro e he ho
  have hmem : e ∈ s.queue := (scanQueue_rest s.state w s.queue).subset he
  cases htickle : (scanQueue s.state w s.queue).tickleMe with
  | true => exact Or.inr (Or.inl (pending_of_tickling hw (by simp [hp, htickle, IOPhase.tickling])))
  | false =>
    rw [htickle] at hp
    cases hft : (scanQueue s.state w s.queue).ft with
    | none =>
      have hexec : e.task.executable s.state = true := ho.1
      rw [not_executable_of_isExec (scanQueue_none hft htickle e hmem)] at hexec
      cases hexec
    | some d =>
      simp only [hft, Option.map_some, Bool.false_eq_true, if_false] at hp
      obtain ⟨l, r, hqueue, hrest, hpassed, hrun, hnot⟩ := scanQueue_takes hft htickle
      have hopen : s.Open e := ho.of_moves hm (by simp [hp, IOPhase.idler]) id
      by_cases hex : d.task.executable s.state = true
      · have her : e ∈ r := by
          have hlr : e ∈ l ++ r := hrest ▸ he
          refine (List.mem_append.mp hlr).resolve_left fun hl => ?_
          exact absurd hopen.1 (by simp [not_executable_of_isExec (hpassed e hl).2])
        rcases hg l d r hqueue hpassed hrun hex e her hopen with hb | hpend | ⟨v, hv, hne, hb, hv'⟩
        · exact Or.inl hb
        · exact Or.inr (Or.inl (hpend.moves hm le_rfl (by simp [hphase, IOPhase.tickling])))
        · exact Or.inr (Or.inr ⟨v, hv, by rw [hm.phase v hne]; exact hb, hv'⟩)
      · obtain ⟨f, hf, hended⟩ := ended_of_not_executable hnot (by simpa using hex)
        refine (hs e hmem hopen).moves hm le_rfl le_rfl (by simp [hphase, IOPhase.tickling])
          (fun _ => id) fun _ _ => ?_
        rw [phase_setPhase_self, hp, hf]
        exact hended

/-! ## Fibers that run -/

/-- A worker runs a fiber in state `EXEC` that no other worker runs. -/
structure Runs (s : IOWorkers) : Prop where
  exec : ∀ w < s.threads, ∀ f, s.phase w = .running f → s.state f = .exec
  unique : ∀ w < s.threads, ∀ w' < s.threads, ∀ f, s.phase w = .running f →
    s.phase w' = .running f → w = w'

theorem Runs.moves (hs : s.Runs) (h : Moves s t w) (hstate : t.state = s.state)
    (hrun : ∀ f, t.phase w ≠ .running f) : t.Runs where
  exec v hv f hf := by
    by_cases hvw : v = w
    · exact absurd (hvw ▸ hf) (hrun f)
    · rw [hstate]
      exact hs.exec v (h.threads ▸ hv) f (by rwa [← h.phase v hvw])
  unique v hv v' hv' f hf hf' := by
    by_cases hvw : v = w
    · exact absurd (hvw ▸ hf) (hrun f)
    · by_cases hvw' : v' = w
      · exact absurd (hvw' ▸ hf') (hrun f)
      · exact hs.unique v (h.threads ▸ hv) v' (h.threads ▸ hv') f (by rwa [← h.phase v hvw])
          (by rwa [← h.phase v' hvw'])

/-- A worker swaps in a fiber that does not run. -/
theorem Runs.enter (hs : s.Runs) (hw : w < s.threads) {f : Nat} (hf : s.state f ≠ .exec) :
    ((s.setState f .exec).setPhase w (.running f)).Runs where
  exec v hv g hg := by
    change Function.update s.state f .exec g = .exec
    by_cases hvw : v = w
    · subst hvw
      simp only [phase_setPhase_self, IOPhase.running.injEq] at hg
      rw [hg, Function.update_self]
    · rw [phase_setPhase_ne _ _ hvw] at hg
      have hexec := hs.exec v hv g hg
      rwa [Function.update_of_ne (by rintro rfl; exact hf hexec)]
  unique v hv v' hv' g hg hg' := by
    have hother : ∀ u < s.threads, u ≠ w → s.phase u = .running f → False := fun u hu _ hr =>
      hf (hs.exec u hu f hr)
    by_cases hvw : v = w <;> by_cases hvw' : v' = w
    · rw [hvw, hvw']
    · subst hvw
      simp only [phase_setPhase_self, IOPhase.running.injEq] at hg
      rw [phase_setPhase_ne _ _ hvw'] at hg'
      exact (hother v' hv' hvw' (hg ▸ hg')).elim
    · subst hvw'
      simp only [phase_setPhase_self, IOPhase.running.injEq] at hg'
      rw [phase_setPhase_ne _ _ hvw] at hg
      exact (hother v hv hvw (hg' ▸ hg)).elim
    · rw [phase_setPhase_ne _ _ hvw] at hg
      rw [phase_setPhase_ne _ _ hvw'] at hg'
      exact hs.unique v hv v' hv' g hg hg'

/-- The fiber of a worker comes back. -/
theorem Runs.leave (hs : s.Runs) (hw : w < s.threads) {f : Nat} (hf : s.phase w = .running f)
    (st : FiberState) {p : IOPhase} (hp : ∀ g, p ≠ .running g) :
    ((s.setState f st).setPhase w p).Runs where
  exec v hv g hg := by
    by_cases hvw : v = w
    · subst hvw
      rw [phase_setPhase_self] at hg
      exact absurd hg (hp g)
    · rw [phase_setPhase_ne _ _ hvw] at hg
      change Function.update s.state f st g = .exec
      rw [Function.update_of_ne (by rintro rfl; exact hvw (hs.unique v hv w hw g hg hf))]
      exact hs.exec v hv g hg
  unique v hv v' hv' g hg hg' := by
    have hne : ∀ u, ((s.setState f st).setPhase w p).phase u = .running g → u ≠ w := by
      rintro u hu rfl
      rw [phase_setPhase_self] at hu
      exact hp g hu
    rw [phase_setPhase_ne _ _ (hne v hg)] at hg
    rw [phase_setPhase_ne _ _ (hne v' hg')] at hg'
    exact hs.unique v hv v' hv' g hg hg'

theorem Covers.swapIn (hs : s.Covers) (hw : w < s.threads) {f : Nat} {j : Job}
    (hphase : s.phase w = .claimed j) (hj : j.executable s.state = true)
    (hf : (s.state f).ended = false) :
    ((s.setState f .exec).setPhase w (.running f)).Covers := by
  have hm : Moves s ((s.setState f .exec).setPhase w (.running f)) w :=
    ⟨hw, rfl, fun w' h => phase_setPhase_ne _ _ h⟩
  have hstate : ∀ g, g ≠ f → ((s.setState f .exec).setPhase w (.running f)).state g = s.state g :=
    fun g hg => Function.update_of_ne hg ..
  have hself : ((s.setState f .exec).setPhase w (.running f)).state f = .exec :=
    Function.update_self ..
  intro e he ho
  have hopen : s.Open e := by
    refine ho.of_moves hm (by simp [IOPhase.idler]) fun hexec => ?_
    obtain ⟨task, thread⟩ := e
    cases task with
    | cb => rfl
    | fiber g =>
      by_cases hg : g = f
      · subst hg
        simp [Job.executable, hself] at hexec
      · simpa [Job.executable, hstate g hg] using hexec
  refine (hs e he hopen).moves hm le_rfl le_rfl (by simp [hphase, IOPhase.tickling])
    (fun g hg => ?_) fun hbound _ => ?_
  · rw [hstate g (by rintro rfl; simp [hf] at hg)]
    exact hg
  · cases j <;> simp_all [IOPhase.bound, Job.executable]

theorem Covers.finish (hs : s.Covers) (hr : s.Runs) (hw : w < s.threads) {f : Nat}
    (hphase : s.phase w = .running f) {st : FiberState} (hg : TickleGuard s (.finish w st))
    {p : IOPhase} (hidler : p.idler = false) (hbound : ∀ state, p.bound state = true) :
    ((s.setState f st).setPhase w p).Covers := by
  have hm : Moves s ((s.setState f st).setPhase w p) w :=
    ⟨hw, rfl, fun w' h => phase_setPhase_ne _ _ h⟩
  have hstate : ∀ g, g ≠ f → ((s.setState f st).setPhase w p).state g = s.state g :=
    fun g hg => Function.update_of_ne hg ..
  have hmono : ∀ {e}, s.Covered e → ((s.setState f st).setPhase w p).Covered e := by
    intro e hc
    refine hc.moves hm le_rfl le_rfl (by simp [hphase, IOPhase.tickling]) (fun g hg => ?_)
      fun _ _ => by rw [phase_setPhase_self]; exact hbound _
    rw [hstate g ?_]
    · exact hg
    · rintro rfl
      rw [hr.exec w hw g hphase] at hg
      cases hg
  intro e he ho
  by_cases hf : e.task = .fiber f
  · obtain ⟨v, hv, hi, hrun⟩ := ho.2
    have hvw : v ≠ w := by
      rintro rfl
      rw [phase_setPhase_self, hidler] at hi
      cases hi
    rw [hm.phase v hvw] at hi
    rcases hg f hphase e he hf ⟨v, hv, hi, hrun⟩ with hmay | hc
    · exact Or.inr (Or.inr ⟨w, hw, by rw [phase_setPhase_self]; exact hbound _, hmay⟩)
    · exact hmono hc
  · refine hmono (hs e he (ho.of_moves hm (by simp [hidler]) fun hexec => ?_))
    obtain ⟨task, thread⟩ := e
    cases task with
    | cb => rfl
    | fiber g =>
      have hgf : g ≠ f := fun h => hf (congrArg Job.fiber h)
      simpa [Job.executable, hstate g hgf] using hexec

/-- The fiber scheduled again may run on the worker that scans next. -/
theorem Covers.requeue (hs : s.Covers) (hw : w < s.threads) {f : Nat}
    (hphase : s.phase w = .requeue f) {e : FiberAndThread} (he : e.thread = none) {p : IOPhase}
    (hidler : p.idler = false) (hbound : ∀ state, p.bound state = true) :
    (({ s with queue := s.queue ++ [e] } : IOWorkers).setPhase w p).Covers := by
  have hm : Moves s (({ s with queue := s.queue ++ [e] } : IOWorkers).setPhase w p) w :=
    ⟨hw, rfl, fun w' h => phase_setPhase_ne _ _ h⟩
  intro d hd ho
  rcases List.mem_append.mp hd with hq | hnew
  · have hopen : s.Open d := ho.of_moves hm (by simp [hidler]) id
    exact (hs d hq hopen).moves hm le_rfl le_rfl (by simp [hphase, IOPhase.tickling])
      (fun _ => id) fun _ _ => by rw [phase_setPhase_self]; exact hbound _
  · rw [List.mem_singleton] at hnew
    subst hnew
    exact Or.inr (Or.inr ⟨w, hw, by rw [phase_setPhase_self]; exact hbound _,
      by simp [FiberAndThread.mayRun, he]⟩)

theorem covers_drain (hw : w < s.threads) (hphase : s.phase w = .woken true)
    (hg : TickleGuard s (.drain w)) :
    (({ s with bytes := 0 } : IOWorkers).setPhase w (.woken false)).Covers := by
  have hm : Moves s (({ s with bytes := 0 } : IOWorkers).setPhase w (.woken false)) w :=
    ⟨hw, rfl, fun w' h => phase_setPhase_ne _ _ h⟩
  intro e he ho
  have hopen : s.Open e := ho.of_moves hm (by simp [IOPhase.idler]) id
  rcases hg e he hopen with hp | hx
  · exact Or.inr (Or.inl (hp.moves hm le_rfl (by simp [hphase, IOPhase.tickling])))
  · exact Or.inr (Or.inr (hx.moves hm (fun _ => id) (by simp [IOPhase.bound])))

/-! ## The idle workers are counted -/

/-- `m_idleThreadCount` is the number of workers in their idle fibers. -/
def Counts (s : IOWorkers) : Prop :=
  s.idleThreadCount = ∑ w ∈ Finset.range s.threads, (s.phase w).counted.toNat

theorem Counts.moves (hs : s.Counts) (h : Moves s t w)
    (hidle : t.idleThreadCount + (s.phase w).counted.toNat =
      s.idleThreadCount + (t.phase w).counted.toNat) : t.Counts := by
  have hmem : w ∈ Finset.range s.threads := Finset.mem_range.mpr h.lt
  have hrest : ∑ v ∈ Finset.range s.threads \ {w}, (t.phase v).counted.toNat =
      ∑ v ∈ Finset.range s.threads \ {w}, (s.phase v).counted.toNat := by
    refine Finset.sum_congr rfl fun v hv => ?_
    rw [h.phase v (by simpa using (Finset.mem_sdiff.mp hv).2)]
  have hs' : s.idleThreadCount = _ := hs
  rw [Finset.sum_eq_add_sum_sdiff_singleton_of_mem hmem] at hs'
  rw [Counts, h.threads, Finset.sum_eq_add_sum_sdiff_singleton_of_mem hmem, hrest]
  omega

theorem Counts.pos (hs : s.Counts) (hw : w < s.threads) (h : (s.phase w).counted = true) :
    0 < s.idleThreadCount := by
  rw [hs]
  refine Finset.sum_pos' (fun _ _ => Nat.zero_le _) ⟨w, Finset.mem_range.mpr hw, ?_⟩
  simp [h]

/-! ## Guarded runs -/

/-- What guarded runs keep. -/
structure Inv (s : IOWorkers) : Prop where
  covers : s.Covers
  runs : s.Runs
  counts : s.Counts

/-- A step of a worker that changes only its phase and the idle count. -/
theorem Inv.moves (hs : s.Inv) (h : Moves s t w) (hqueue : t.queue = s.queue)
    (hstate : t.state = s.state) (hbytes : t.bytes = s.bytes) (htickles : t.tickles = s.tickles)
    (hidler : (t.phase w).idler = true → (s.phase w).idler = true)
    (htickling : (s.phase w).tickling = false)
    (hbound : (s.phase w).bound s.state = true → (t.phase w).bound s.state = true)
    (hrun : ∀ f, t.phase w ≠ .running f)
    (hidle : t.idleThreadCount + (s.phase w).counted.toNat =
      s.idleThreadCount + (t.phase w).counted.toNat) : t.Inv where
  covers := hs.covers.moves h hqueue hstate hbytes htickles hidler (by simp [htickling]) hbound
  runs := hs.runs.moves h hstate hrun
  counts := hs.counts.moves h hidle

theorem Runs.tickle (h : s.Runs) : s.tickle.Runs := by
  obtain ⟨hthreads, hstate, -, hphase, -, -⟩ := tickle_fields s
  constructor
  · rw [hthreads, hstate, hphase]
    exact h.exec
  · rw [hthreads, hphase]
    exact h.unique

theorem Counts.tickle (h : s.Counts) : s.tickle.Counts := by
  obtain ⟨hthreads, -, -, hphase, -, hidle⟩ := tickle_fields s
  rw [Counts, hthreads, hphase, hidle]
  exact h

theorem Inv.tickle (hs : s.Inv) : s.tickle.Inv :=
  ⟨hs.covers.tickle, hs.runs.tickle, hs.counts.tickle⟩

theorem Inv.scheduleTickle (hs : s.Inv) (hg : TickleGuard s .scheduleTickle)
    (h : s.scheduleTickle = some t) : t.Inv := by
  have hcovers := covers_scheduleTickle hg h
  simp only [IOWorkers.scheduleTickle, Option.ite_none_right_eq_some, Option.some.injEq] at h
  obtain ⟨-, rfl⟩ := h
  have hruns : ({ s with tickles := s.tickles - 1 } : IOWorkers).Runs :=
    ⟨hs.runs.exec, hs.runs.unique⟩
  have hcounts : ({ s with tickles := s.tickles - 1 } : IOWorkers).Counts := hs.counts
  exact ⟨hcovers, hruns.tickle, hcounts.tickle⟩

theorem Inv.workerTickle (hs : s.Inv) (hw : w < s.threads)
    (hg : TickleGuard s (.workerTickle w)) (h : s.workerTickle w = some t) : t.Inv := by
  have hcovers := covers_workerTickle hw hg h
  obtain ⟨hthreads, hstate, -, hphase, -, hidle⟩ := tickle_fields s
  have hmove : ∀ p, (s.tickle.setPhase w p).Covers → (∀ f, p ≠ .running f) →
      (s.phase w).counted = p.counted → (s.tickle.setPhase w p).Inv := by
    intro p hc hp hcount
    have hm : Moves s (s.tickle.setPhase w p) w := moves_setPhase hw hthreads hphase p
    refine ⟨hc, hs.runs.moves hm hstate (by simpa using hp), hs.counts.moves hm ?_⟩
    rw [phase_setPhase_self, hcount]
    exact congrArg (· + _) hidle
  simp only [IOWorkers.workerTickle] at h
  split at h
  case h_4 => cases h
  all_goals
    rename_i hp
    cases h
    exact hmove _ hcovers (by simp) (by rw [hp]; rfl)

theorem Inv.scan (hs : s.Inv) (hw : w < s.threads) (hg : TickleGuard s (.scan w))
    (h : s.scan w = some t) : t.Inv := by
  have hcovers := hs.covers.scan hw hg h
  simp only [IOWorkers.scan] at h
  split at h
  case h_2 => cases h
  rename_i hphase
  rw [Option.some.injEq] at h
  have hm : Moves s t w := ⟨hw, h ▸ rfl, fun w' hne => by rw [← h]; exact phase_setPhase_ne _ _ hne⟩
  refine ⟨hcovers, hs.runs.moves hm (h ▸ rfl) fun f => ?_, hs.counts.moves hm ?_⟩
  · rw [← h, phase_setPhase_self]
    split
    · simp
    · split <;> simp
  · rw [← h, phase_setPhase_self, hphase]
    split
    · rfl
    · split <;> rfl

theorem Inv.swapIn (hs : s.Inv) (hw : w < s.threads) {f : Nat} (h : s.swapIn w f = some t) :
    t.Inv := by
  have hmove : ∀ j : Job, s.phase w = .claimed j → j.executable s.state = true →
      s.state f ≠ .exec → (s.state f).ended = false →
      ((s.setState f .exec).setPhase w (.running f)).Inv := by
    intro j hphase hj hexec hended
    have hm : Moves s ((s.setState f .exec).setPhase w (.running f)) w :=
      ⟨hw, rfl, fun w' h => phase_setPhase_ne _ _ h⟩
    exact ⟨hs.covers.swapIn hw hphase hj hended, hs.runs.enter hw hexec,
      hs.counts.moves hm (by rw [phase_setPhase_self, hphase]; rfl)⟩
  simp only [IOWorkers.swapIn] at h
  split at h
  case h_1 g hphase =>
    simp only [Option.ite_none_right_eq_some, Option.some.injEq] at h
    obtain ⟨⟨rfl, hj⟩, rfl⟩ := h
    simp only [Job.executable, Bool.decide_and, Bool.and_eq_true, decide_eq_true_eq,
      Bool.not_eq_true'] at hj
    exact hmove _ hphase (by simpa [Job.executable] using hj) hj.1 hj.2
  case h_2 hphase =>
    simp only [Option.ite_none_right_eq_some, Option.some.injEq] at h
    obtain ⟨hinit, rfl⟩ := h
    exact hmove .cb hphase rfl (by simp [hinit]) (by simp [hinit, FiberState.ended])
  case h_3 => cases h

theorem Inv.finish (hs : s.Inv) (hw : w < s.threads) {st : FiberState}
    (hg : TickleGuard s (.finish w st)) (h : s.finish w st = some t) : t.Inv := by
  simp only [IOWorkers.finish] at h
  split at h
  case h_2 => cases h
  rename_i f hphase
  simp only [Option.ite_none_left_eq_some, Option.some.injEq] at h
  obtain ⟨-, rfl⟩ := h
  set p : IOPhase := if st = .ready then .requeue f else .scan with hp
  have hcases : p = .requeue f ∨ p = .scan := by
    rw [hp]
    split <;> simp
  have hm : Moves s ((s.setState f st).setPhase w p) w :=
    ⟨hw, rfl, fun w' h => phase_setPhase_ne _ _ h⟩
  refine ⟨hs.covers.finish hs.runs hw hphase hg ?_ ?_, hs.runs.leave hw hphase st ?_,
    hs.counts.moves hm ?_⟩
  · rcases hcases with h | h <;> rw [h] <;> rfl
  · rcases hcases with h | h <;> rw [h] <;> exact fun _ => rfl
  · rcases hcases with h | h <;> rw [h] <;> simp
  · rw [phase_setPhase_self, hphase]
    rcases hcases with h | h <;> rw [h] <;> rfl

theorem Inv.requeue (hs : s.Inv) (hw : w < s.threads) (h : s.requeue w = some t) : t.Inv := by
  simp only [IOWorkers.requeue] at h
  split at h
  case h_2 => cases h
  rename_i f hphase
  cases h
  set p : IOPhase := if s.queue = [] then .requeued else .scan with hp
  have hcases : p = .requeued ∨ p = .scan := by
    rw [hp]
    split <;> simp
  have hm : Moves s (({ s with queue := s.queue ++ [⟨.fiber f, none⟩] } : IOWorkers).setPhase w p)
      w := ⟨hw, rfl, fun w' h => phase_setPhase_ne _ _ h⟩
  refine ⟨hs.covers.requeue hw hphase rfl ?_ ?_, hs.runs.moves hm rfl ?_, hs.counts.moves hm ?_⟩
  · rcases hcases with h | h <;> rw [h] <;> rfl
  · rcases hcases with h | h <;> rw [h] <;> exact fun _ => rfl
  · rw [phase_setPhase_self]
    rcases hcases with h | h <;> rw [h] <;> simp
  · rw [phase_setPhase_self, hphase]
    rcases hcases with h | h <;> rw [h] <;> rfl

theorem Inv.drain (hs : s.Inv) (hw : w < s.threads) (hg : TickleGuard s (.drain w))
    (h : s.drain w = some t) : t.Inv := by
  simp only [IOWorkers.drain] at h
  split at h
  case h_2 => cases h
  rename_i hphase
  cases h
  have hm : Moves s (({ s with bytes := 0 } : IOWorkers).setPhase w (.woken false)) w :=
    ⟨hw, rfl, fun w' h => phase_setPhase_ne _ _ h⟩
  exact ⟨covers_drain hw hphase hg, hs.runs.moves hm rfl (by simp),
    hs.counts.moves hm (by rw [phase_setPhase_self, hphase]; rfl)⟩

/-- The steps in and out of the idle fiber, and past a fiber that has ended. -/
theorem Inv.move (hs : s.Inv) (hw : w < s.threads)
    (h : s.drop w = some t ∨ s.enterIdle w = some t ∨ s.sleep w = some t ∨ s.stop w = some t ∨
      (∃ tickled, s.wake w tickled = some t) ∨ s.leaveIdle w = some t) : t.Inv := by
  have hm : ∀ (u : IOWorkers) (p : IOPhase), u.threads = s.threads → u.phase = s.phase →
      Moves s (u.setPhase w p) w := fun u p ht hp => moves_setPhase hw ht hp p
  have hpos : (s.phase w).counted = true → 0 < s.idleThreadCount := hs.counts.pos hw
  rcases h with h | h | h | h | ⟨tickled, h⟩ | h
  · simp only [IOWorkers.drop] at h
    split at h
    · rename_i f hphase
      simp only [Option.ite_none_right_eq_some, Option.some.injEq] at h
      obtain ⟨-, rfl⟩ := h
      exact hs.moves (hm s .scan rfl rfl) rfl rfl rfl rfl (by simp [IOPhase.idler])
        (by rw [hphase]; rfl) (by simp [IOPhase.bound]) (by simp)
        (by rw [phase_setPhase_self, hphase]; rfl)
    · cases h
  · simp only [IOWorkers.enterIdle] at h
    split at h
    · rename_i hphase
      split at h
      · cases h
        exact hs.moves (hm s .done rfl rfl) rfl rfl rfl rfl (by simp [IOPhase.idler])
          (by rw [hphase]; rfl) (by simp [hphase, IOPhase.bound]) (by simp)
          (by rw [phase_setPhase_self, hphase]; rfl)
      · cases h
        exact hs.moves (hm { s with idleThreadCount := s.idleThreadCount + 1 } .idling rfl rfl)
          rfl rfl rfl rfl (by simp [hphase, IOPhase.idler])
          (by rw [hphase]; rfl) (by simp [hphase, IOPhase.bound]) (by simp)
          (by rw [phase_setPhase_self, hphase]; rfl)
    · cases h
  · simp only [IOWorkers.sleep] at h
    split at h
    · rename_i hphase
      cases h
      exact hs.moves (hm s .asleep rfl rfl) rfl rfl rfl rfl (by simp [hphase, IOPhase.idler])
        (by rw [hphase]; rfl) (by simp [hphase, IOPhase.bound]) (by simp)
        (by rw [phase_setPhase_self, hphase]; rfl)
    · cases h
  · simp only [IOWorkers.stop] at h
    split at h
    · rename_i hphase
      simp only [Option.ite_none_right_eq_some, Option.some.injEq] at h
      obtain ⟨-, rfl⟩ := h
      have := hpos (by rw [hphase]; rfl)
      refine hs.moves (hm _ .scan rfl rfl) rfl rfl rfl rfl (by simp [IOPhase.idler])
        (by rw [hphase]; rfl) (by simp [IOPhase.bound]) (by simp) ?_
      rw [phase_setPhase_self, hphase]
      exact Nat.sub_add_cancel this
    · cases h
  · simp only [IOWorkers.wake] at h
    split at h
    · rename_i hphase
      simp only [Option.ite_none_left_eq_some, Option.some.injEq] at h
      obtain ⟨-, rfl⟩ := h
      exact hs.moves (hm s (.woken tickled) rfl rfl) rfl rfl rfl rfl (by simp [IOPhase.idler])
        (by rw [hphase]; rfl) (by simp [IOPhase.bound]) (by simp)
        (by rw [phase_setPhase_self, hphase]; rfl)
    · cases h
  · simp only [IOWorkers.leaveIdle] at h
    split at h
    · rename_i hphase
      cases h
      have := hpos (by rw [hphase]; rfl)
      refine hs.moves (hm _ .scan rfl rfl) rfl rfl rfl rfl (by simp [IOPhase.idler])
        (by rw [hphase]; rfl) (by simp [IOPhase.bound]) (by simp) ?_
      rw [phase_setPhase_self, hphase]
      exact Nat.sub_add_cancel this
    · cases h

theorem Inv.initial (threads : Nat) : ({ threads := threads } : IOWorkers).Inv where
  covers _ h := by cases h
  runs := ⟨fun _ _ _ h => (by cases h), fun _ _ _ _ _ h => (by cases h)⟩
  counts := by simp [Counts, IOPhase.counted]

theorem Inv.step {a : TickleAction} (hs : s.Inv) (hg : TickleGuard s a) (h : s.step a = some t) :
    t.Inv := by
  simp only [IOWorkers.step, Option.ite_none_left_eq_some] at h
  obtain ⟨hworker, h⟩ := h
  have hlt : ∀ w, a.worker = some w → w < s.threads := fun w ha => by simpa [ha] using hworker
  cases a with
  | schedule es =>
    cases h
    exact ⟨hs.covers.schedule hg, ⟨hs.runs.exec, hs.runs.unique⟩, hs.counts⟩
  | scheduleTickle => exact hs.scheduleTickle hg h
  | notify =>
    cases h
    exact hs.tickle
  | scan w => exact hs.scan (hlt w rfl) hg h
  | workerTickle w => exact hs.workerTickle (hlt w rfl) hg h
  | swapIn w f => exact hs.swapIn (hlt w rfl) h
  | drop w => exact hs.move (hlt w rfl) (.inl h)
  | finish w st => exact hs.finish (hlt w rfl) hg h
  | requeue w => exact hs.requeue (hlt w rfl) h
  | enterIdle w => exact hs.move (hlt w rfl) (.inr (.inl h))
  | sleep w => exact hs.move (hlt w rfl) (.inr (.inr (.inl h)))
  | stop w => exact hs.move (hlt w rfl) (.inr (.inr (.inr (.inl h))))
  | wake w tickled => exact hs.move (hlt w rfl) (.inr (.inr (.inr (.inr (.inl ⟨tickled, h⟩)))))
  | drain w => exact hs.drain (hlt w rfl) hg h
  | leaveIdle w => exact hs.move (hlt w rfl) (.inr (.inr (.inr (.inr (.inr h)))))

theorem Inv.noLostWakeup (hs : s.Inv) : s.NoLostWakeup := by
  intro e he hexec w hw hasleep hrun
  have hidle : 0 < s.idleThreadCount := hs.counts.pos hw (by rw [hasleep]; rfl)
  have hopen : s.Open e := ⟨hexec, w, hw, by rw [hasleep]; rfl, hrun⟩
  exact (hs.covers e he hopen).imp_right (Or.imp_left fun hp => ⟨hp, hidle⟩)

end IOWorkers

/-- On any number of workers, no wake-up is lost in any state of a run whose steps meet the
    guard. -/
theorem tickle_noLostWakeup {s : IOWorkers} (h : tickleMachine.Reach TickleGuard s) :
    s.NoLostWakeup := by
  refine (h.invariant (P := IOWorkers.Inv) ?_ ?_).noLostWakeup
  · rintro s ⟨threads, rfl⟩
    exact IOWorkers.Inv.initial threads
  · intro s a t hs hg hstep
    exact hs.step hg hstep

/-- A callback pushed while the only worker sleeps. -/
def pushedAsleep : IOWorkers :=
  (tickleMachine.run { threads := 1 }
    [.scan 0, .enterIdle 0, .sleep 0, .schedule [⟨.cb, none⟩]]).getD { threads := 1 }

theorem tickle_noLostWakeup_pushed : pushedAsleep.NoLostWakeup := by
  refine tickle_noLostWakeup (.of_run [TickleAction.scan 0, .enterIdle 0, .sleep 0,
    .schedule [⟨.cb, none⟩]] (.init ⟨1, rfl⟩) ⟨?_, fun _ h => ⟨trivial, fun _ h' =>
      ⟨trivial, fun _ h'' => ⟨Or.inl ?_, fun _ _ => trivial⟩⟩⟩⟩ rfl)
  · intro l e r hqueue
    simp at hqueue
  · cases h
    cases h'
    cases h''
    rfl

/-- Worker 1 runs a callback while another is pushed for it.  Worker 0 takes the byte, calls
    `tickle` when no worker is counted idle, and sleeps; the callback pushed for it then finds
    the queue not empty. -/
def pinnedBehind : IOWorkers :=
  (tickleMachine.run { threads := 2 }
    [.schedule [⟨.cb, none⟩], .scheduleTickle, .scan 1, .swapIn 1 0, .scan 0, .enterIdle 0,
      .sleep 0, .schedule [⟨.cb, some 1⟩], .scheduleTickle, .wake 0 true, .drain 0, .leaveIdle 0,
      .scan 0, .workerTickle 0, .enterIdle 0, .sleep 0, .schedule [⟨.cb, some 0⟩]]).getD
    { threads := 2 }

theorem wakeup_lost_behind_pinned :
    ¬ ∀ s, tickleMachine.Reachable s → s.NoLostWakeup := by
  intro h
  have hreach : tickleMachine.Reachable pinnedBehind :=
    .of_run [TickleAction.schedule [⟨.cb, none⟩], .scheduleTickle, .scan 1, .swapIn 1 0, .scan 0,
      .enterIdle 0, .sleep 0, .schedule [⟨.cb, some 1⟩], .scheduleTickle, .wake 0 true, .drain 0,
      .leaveIdle 0, .scan 0, .workerTickle 0, .enterIdle 0, .sleep 0,
      .schedule [⟨.cb, some 0⟩]] ⟨2, rfl⟩ rfl
  have hlost := h _ hreach ⟨.cb, some 0⟩ (by decide) rfl 0 (by decide) rfl rfl
  rw [IOWorkers.Pending, IOWorkers.Expected] at hlost
  revert hlost
  decide

end CppServerFramework.Async

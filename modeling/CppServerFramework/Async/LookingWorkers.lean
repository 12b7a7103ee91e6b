import CppServerFramework.Async.TickleProps

/-!
# Workers that come to the idle fiber before they run a task

A worker looks when nothing in the queue keeps it from its idle fiber, where it evaluates
`getNextTimer`.  The steps of the loop that neither push an entry nor bring a fiber back leave those
that look looking, or a call of `tickle` is due or made.
-/

namespace CppServerFramework.Async

namespace IOPhase

/-- The worker has scanned the queue and found nothing. -/
def scanned : IOPhase → Bool
  | .passed none | .beforeIdle | .idling => true
  | _ => false

/-- The worker tests `stopping` in the idle fiber before it runs a task; `free` tells whether it
    finds nothing to run in the queue. -/
def looks (state : Nat → FiberState) (free : Bool) : IOPhase → Bool
  | .passed none | .beforeIdle | .idling => true
  | .scan | .woken _ | .requeued => free
  | .claimed (.fiber f) | .passed (some (.fiber f)) => (state f).ended && free
  | _ => false

/-- The worker is in `epoll_wait` or behind it. -/
def inside : IOPhase → Bool
  | .asleep | .woken _ => true
  | _ => false

end IOPhase

namespace IOWorkers

variable {s t : IOWorkers} {w v : Nat}

/-- The worker would run none of the entries. -/
def freeOf (s : IOWorkers) (es : List FiberAndThread) (w : Nat) : Bool :=
  es.all fun e => !(e.mayRun w && e.task.executable s.state)

def free (s : IOWorkers) (w : Nat) : Bool := s.freeOf s.queue w

/-- The worker is awake and comes to `getNextTimer` before it runs a task. -/
def looks (s : IOWorkers) (w : Nat) : Bool :=
  !s.idleTerm w && (s.phase w).looks s.state (s.free w)

theorem freeOf_iff {es : List FiberAndThread} : s.freeOf es w = true ↔
    ∀ e ∈ es, e.mayRun w = true → e.task.executable s.state = false := by
  simp [freeOf, or_iff_not_imp_left]

theorem freeOf_append (es ds : List FiberAndThread) :
    s.freeOf (es ++ ds) w = (s.freeOf es w && s.freeOf ds w) := List.all_append ..

/-- A queue with fewer entries, and fewer fibers fit to run. -/
theorem free_mono (hqueue : t.queue ⊆ s.queue)
    (hexec : ∀ j : Job, j.executable t.state = true → j.executable s.state = true)
    (h : s.free w = true) : t.free w = true := by
  refine freeOf_iff.mpr fun e he hrun => ?_
  have hnot := freeOf_iff.mp h e (hqueue he) hrun
  exact Bool.eq_false_iff.mpr fun ht => by simp [hexec e.task ht] at hnot

theorem looks_mono (hphase : t.phase v = s.phase v) (hidle : t.idleTerm v = s.idleTerm v)
    (hended : ∀ f, (s.state f).ended = true → (t.state f).ended = true)
    (hfree : s.free v = true → t.free v = true) (h : s.looks v = true) : t.looks v = true := by
  rw [looks, hphase, hidle]
  simp only [looks, Bool.and_eq_true] at h ⊢
  refine ⟨h.1, ?_⟩
  have hlooks := h.2
  revert hlooks
  fun_cases IOPhase.looks s.state (s.free v) (s.phase v) <;> simp_all [IOPhase.looks]

theorem looks_congr (hphase : t.phase v = s.phase v) (hidle : t.idleTerm v = s.idleTerm v)
    (hstate : t.state = s.state) (hqueue : t.queue = s.queue) : t.looks v = s.looks v := by
  rw [looks, looks, hphase, hidle, free, free, freeOf, freeOf, hstate, hqueue]

/-- Entries behind the others keep back a worker that has not scanned the queue yet. -/
theorem looks_append (hphase : t.phase v = s.phase v) (hidle : t.idleTerm v = s.idleTerm v)
    (hstate : t.state = s.state) {es : List FiberAndThread} (hqueue : t.queue = s.queue ++ es) :
    t.looks v = (s.looks v && ((s.phase v).scanned || s.freeOf es v)) := by
  have hfree : t.free v = (s.free v && s.freeOf es v) := by
    rw [free, hqueue, freeOf, hstate]
    exact freeOf_append ..
  rw [looks, looks, hphase, hidle, hfree, hstate, Bool.and_assoc]
  congr 1
  fun_cases IOPhase.looks s.state (s.free v) (s.phase v) <;>
    simp_all [IOPhase.looks, IOPhase.scanned, Bool.and_assoc]

/-! ## Steps outside of `epoll_wait` -/

/-- A worker may move, but into `epoll_wait` or out of it none does. -/
structure Aside (s t : IOWorkers) : Prop where
  threads : t.threads = s.threads
  phase : ∀ v, t.phase v = s.phase v ∨ (s.phase v).inside = false ∧ (t.phase v).inside = false

theorem Aside.asleep (h : Aside s t) (v : Nat) : t.phase v = .asleep ↔ s.phase v = .asleep := by
  rcases h.phase v with hp | ⟨hs, ht⟩
  · rw [hp]
  · constructor <;> intro hp <;> simp [hp, IOPhase.inside] at hs ht

theorem Aside.woken (h : Aside s t) (v : Nat) (b : Bool) :
    t.phase v = .woken b ↔ s.phase v = .woken b := by
  rcases h.phase v with hp | ⟨hs, ht⟩
  · rw [hp]
  · constructor <;> intro hp <;> simp [hp, IOPhase.inside] at hs ht

theorem Moves.aside (h : Moves s t w) (hs : (s.phase w).inside = false)
    (ht : (t.phase w).inside = false) : Aside s t := by
  refine ⟨h.threads, fun v => ?_⟩
  by_cases hv : v = w
  · exact Or.inr (hv ▸ ⟨hs, ht⟩)
  · exact Or.inl (h.phase v hv)

/-- What announces a wake-up, and who looks, is not lost: a byte is in the pipe if a worker is
    counted idle, a call of `tickle` is due, or nothing is taken away. -/
structure Keeps (s t : IOWorkers) : Prop extends Aside s t where
  cover : (0 < t.idleThreadCount → 0 < t.bytes) ∨ t.Pending ∨
    t.bytes = s.bytes ∧ (s.queue = [] → t.queue = []) ∧ (s.Pending → t.Pending) ∧
      ∀ v < s.threads, s.looks v = true → t.looks v = true

theorem keeps_tickle (hphase : Aside s t) (hbytes : t.bytes = s.tickle.bytes)
    (hidle : t.idleThreadCount = s.idleThreadCount) : Keeps s t :=
  ⟨hphase, Or.inl fun h => by rw [hbytes]; exact bytes_tickle_pos (hidle ▸ h)⟩

/-- A worker moves that is neither in `epoll_wait` nor about to call `tickle`, and goes on
    looking if it did. -/
theorem Moves.keeps (h : Moves s t w) (hs : (s.phase w).inside = false)
    (ht : (t.phase w).inside = false) (hbytes : t.bytes = s.bytes)
    (htickles : t.tickles = s.tickles) (hqueue : t.queue ⊆ s.queue)
    (htickling : (s.phase w).tickling = false) (hidle : ∀ v, v ≠ w → t.idleTerm v = s.idleTerm v)
    (hended : ∀ f, (s.state f).ended = true → (t.state f).ended = true)
    (hexec : ∀ j : Job, j.executable t.state = true → j.executable s.state = true)
    (hlooks : s.looks w = true → t.looks w = true) : Keeps s t := by
  refine ⟨h.aside hs ht, Or.inr (Or.inr ⟨hbytes, fun hnil => ?_, fun hp => ?_, fun v hv => ?_⟩)⟩
  · exact List.subset_nil.mp (hnil ▸ hqueue)
  · exact hp.moves h htickles.ge (by simp [htickling])
  · by_cases hvw : v = w
    · exact hvw ▸ hlooks
    · exact looks_mono (h.phase v hvw) (hidle v hvw) hended (free_mono hqueue hexec)

/-- A worker that looks takes only a fiber that has ended. -/
theorem keeps_scan (hw : w < s.threads) (h : s.scan w = some t) : Keeps s t := by
  simp only [IOWorkers.scan] at h
  split at h
  case h_2 => cases h
  rename_i hphase
  rw [Option.some.injEq] at h
  have hm : Moves s t w :=
    ⟨hw, h ▸ rfl, fun w' hne => by rw [← h]; exact phase_setPhase_ne _ _ hne⟩
  have hinside : (s.phase w).inside = false := by simp [hphase, IOPhase.inside]
  have hsub := (scanQueue_rest s.state w s.queue).subset
  cases htickle : (scanQueue s.state w s.queue).tickleMe with
  | true =>
    have hp : t.phase w = .passed ((scanQueue s.state w s.queue).ft.map FiberAndThread.task) := by
      rw [← h, phase_setPhase_self, if_pos htickle]
    exact ⟨hm.aside hinside (by simp [hp, IOPhase.inside]),
      Or.inr (Or.inl (pending_of_tickling (hm.threads ▸ hw) (by simp [hp, IOPhase.tickling])))⟩
  | false =>
    rw [htickle] at h
    have hfree : s.free w = true → t.free w = true :=
      free_mono (h ▸ hsub) (by rw [← h]; exact fun _ => id)
    cases hft : (scanQueue s.state w s.queue).ft with
    | none =>
      have hp : t.phase w = .beforeIdle := by simp [← h, hft]
      refine hm.keeps hinside (by simp [hp, IOPhase.inside]) (h ▸ rfl) (h ▸ rfl) (h ▸ hsub)
        (by simp [hphase, IOPhase.tickling]) (fun v _ => h ▸ rfl) (by rw [← h]; exact fun _ => id)
        (by rw [← h]; exact fun _ => id) fun hlooks => ?_
      have hidle : t.idleTerm w = s.idleTerm w := h ▸ rfl
      simp only [looks, hphase, hp, hidle, IOPhase.looks, Bool.and_eq_true] at hlooks ⊢
      exact ⟨hlooks.1, trivial⟩
    | some d =>
      have hp : t.phase w = .claimed d.task := by simp [← h, hft]
      refine hm.keeps hinside (by simp [hp, IOPhase.inside]) (h ▸ rfl) (h ▸ rfl) (h ▸ hsub)
        (by simp [hphase, IOPhase.tickling]) (fun v _ => h ▸ rfl) (by rw [← h]; exact fun _ => id)
        (by rw [← h]; exact fun _ => id) fun hlooks => ?_
      have hidle : t.idleTerm w = s.idleTerm w := h ▸ rfl
      have hstate : t.state = s.state := h ▸ rfl
      simp only [looks, hphase, IOPhase.looks, Bool.and_eq_true] at hlooks
      obtain ⟨l, r, hqueue, -, -, hrun, hnot⟩ := scanQueue_takes hft htickle
      have hexec : d.task.executable s.state = false :=
        freeOf_iff.mp hlooks.2 d (by simp [hqueue]) hrun
      obtain ⟨f, hf, hended⟩ := ended_of_not_executable hnot hexec
      simp only [looks, hp, hf, hidle, IOPhase.looks, hstate, hended, Bool.and_eq_true]
      exact ⟨hlooks.1, trivial, hfree hlooks.2⟩

theorem keeps_workerTickle (hw : w < s.threads) (h : s.workerTickle w = some t) : Keeps s t := by
  obtain ⟨hthreads, -, -, hphase, -, hidle⟩ := tickle_fields s
  have hmove : ∀ p, (s.phase w).inside = false → p.inside = false →
      Keeps s (s.tickle.setPhase w p) := by
    intro p hs hp
    refine keeps_tickle ((moves_setPhase hw hthreads hphase p).aside hs ?_) rfl hidle
    rwa [phase_setPhase_self]
  simp only [IOWorkers.workerTickle] at h
  split at h
  case h_4 => cases h
  all_goals
    rename_i hp
    cases h
    exact hmove _ (by simp [hp, IOPhase.inside]) rfl

/-- A worker that swaps a fiber in did not look. -/
theorem keeps_swapIn (hw : w < s.threads) {f : Nat} (h : s.swapIn w f = some t) : Keeps s t := by
  have hmove : ∀ j : Job, s.phase w = .claimed j → j.executable s.state = true →
      (s.state f).ended = false → Keeps s ((s.setState f .exec).setPhase w (.running f)) := by
    intro j hphase hj hf
    have hm : Moves s ((s.setState f .exec).setPhase w (.running f)) w :=
      ⟨hw, rfl, fun w' h => phase_setPhase_ne _ _ h⟩
    refine hm.keeps (by simp [hphase, IOPhase.inside]) (by simp [IOPhase.inside]) rfl rfl
      (List.Subset.refl _) (by simp [hphase, IOPhase.tickling]) (fun _ _ => rfl) (fun g hg => ?_)
      (fun i hi => ?_) fun hlooks => ?_
    · have hne : g ≠ f := by
        rintro rfl
        simp [hf] at hg
      change (Function.update s.state f .exec g).ended = true
      rwa [Function.update_of_ne hne]
    · cases i with
      | cb => rfl
      | fiber g =>
        change Job.executable (Function.update s.state f .exec) _ = true at hi
        by_cases hne : g = f
        · simp [Job.executable, hne] at hi
        · simpa [Job.executable, Function.update_of_ne hne] using hi
    · cases j <;> simp_all [looks, IOPhase.looks, Job.executable]
  simp only [IOWorkers.swapIn] at h
  split at h
  case h_1 g hphase =>
    simp only [Option.ite_none_right_eq_some, Option.some.injEq] at h
    obtain ⟨⟨rfl, hj⟩, rfl⟩ := h
    refine hmove _ hphase hj ?_
    simp only [Job.executable, Bool.decide_and, Bool.and_eq_true, Bool.not_eq_true'] at hj
    simpa using hj.2
  case h_2 hphase =>
    simp only [Option.ite_none_right_eq_some, Option.some.injEq] at h
    obtain ⟨hinit, rfl⟩ := h
    exact hmove .cb hphase rfl (by simp [hinit, FiberState.ended])
  case h_3 => cases h

theorem keeps_drop (hw : w < s.threads) (h : s.drop w = some t) : Keeps s t := by
  simp only [IOWorkers.drop] at h
  split at h
  case h_2 => cases h
  rename_i f hphase
  simp only [Option.ite_none_right_eq_some, Option.some.injEq] at h
  obtain ⟨hended, rfl⟩ := h
  refine (moves_setPhase hw rfl rfl .scan).keeps (by simp [hphase, IOPhase.inside])
    (by simp [IOPhase.inside]) rfl rfl (List.Subset.refl _) (by simp [hphase, IOPhase.tickling])
    (fun _ _ => rfl) (fun _ => id) (fun _ => id) fun hlooks => ?_
  simp only [looks, hphase, IOPhase.looks, Bool.and_eq_true] at hlooks
  simp only [looks, phase_setPhase_self, IOPhase.looks, Bool.and_eq_true]
  exact ⟨hlooks.1, hlooks.2.2⟩

theorem keeps_enterIdle (hw : w < s.threads) (h : s.enterIdle w = some t) : Keeps s t := by
  simp only [IOWorkers.enterIdle] at h
  split at h
  case h_2 => cases h
  rename_i hphase
  split at h
  · rename_i hterm
    cases h
    refine (moves_setPhase hw rfl rfl .done).keeps (by simp [hphase, IOPhase.inside])
      (by simp [IOPhase.inside]) rfl rfl (List.Subset.refl _) (by simp [hphase, IOPhase.tickling])
      (fun _ _ => rfl) (fun _ => id) (fun _ => id) fun hlooks => ?_
    simp [looks, hterm] at hlooks
  · cases h
    refine (moves_setPhase (t := { s with idleThreadCount := s.idleThreadCount + 1 }) hw rfl rfl
      .idling).keeps (by simp [hphase, IOPhase.inside]) (by simp [IOPhase.inside]) rfl rfl
      (List.Subset.refl _) (by simp [hphase, IOPhase.tickling]) (fun _ _ => rfl) (fun _ => id)
      (fun _ => id) fun hlooks => ?_
    simp only [looks, hphase, IOPhase.looks, Bool.and_eq_true] at hlooks
    simp only [looks, phase_setPhase_self, IOPhase.looks, Bool.and_eq_true]
    exact ⟨hlooks.1, trivial⟩

/-! ## Idle workers are counted in every run -/

/-- A worker moves with the count. -/
theorem Counts.setPhase {u : IOWorkers} {p : IOPhase} (hs : s.Counts) (hw : w < s.threads)
    (hthreads : u.threads = s.threads) (hphase : u.phase = s.phase)
    (hidle : u.idleThreadCount + (s.phase w).counted.toNat =
      s.idleThreadCount + p.counted.toNat) : (u.setPhase w p).Counts :=
  hs.moves (moves_setPhase hw hthreads hphase p) (by rwa [phase_setPhase_self])

theorem counts_tickling (hs : s.Counts) (hw : w < s.threads) (h : s.workerTickle w = some t) :
    t.Counts := by
  obtain ⟨hthreads, -, -, hphase, -, hidle⟩ := tickle_fields s
  simp only [IOWorkers.workerTickle] at h
  split at h
  case h_4 => cases h
  all_goals
    rename_i hp
    cases h
    exact hs.setPhase hw hthreads hphase (by rw [hidle, hp]; rfl)

/-- The steps of a worker in the loop that change the phase alone, or the queue or a fiber too. -/
theorem counts_loop (hs : s.Counts) (hw : w < s.threads)
    (h : s.scan w = some t ∨ (∃ f, s.swapIn w f = some t) ∨ s.drop w = some t ∨
      (∃ st, s.finish w st = some t) ∨ s.requeue w = some t) : t.Counts := by
  have hmove : ∀ (u : IOWorkers) (p : IOPhase), u.threads = s.threads → u.phase = s.phase →
      u.idleThreadCount = s.idleThreadCount → (s.phase w).counted = false → p.counted = false →
      (u.setPhase w p).Counts := fun u p ht hp hi hold hnew =>
    hs.setPhase hw ht hp (by rw [hi, hold, hnew])
  rcases h with h | ⟨f, h⟩ | h | ⟨st, h⟩ | h
  · simp only [IOWorkers.scan] at h
    split at h
    · rename_i hphase
      cases h
      refine hmove _ _ rfl rfl rfl (by simp [hphase, IOPhase.counted]) ?_
      split
      · rfl
      · split <;> rfl
    · cases h
  · simp only [IOWorkers.swapIn] at h
    split at h
    case h_3 => cases h
    all_goals
      rename_i hphase
      simp only [Option.ite_none_right_eq_some, Option.some.injEq] at h
      obtain ⟨-, rfl⟩ := h
      exact hmove (s.setState f .exec) _ rfl rfl rfl (by simp [hphase, IOPhase.counted]) rfl
  · simp only [IOWorkers.drop] at h
    split at h
    · rename_i hphase
      simp only [Option.ite_none_right_eq_some, Option.some.injEq] at h
      obtain ⟨-, rfl⟩ := h
      exact hmove s _ rfl rfl rfl (by simp [hphase, IOPhase.counted]) rfl
    · cases h
  · simp only [IOWorkers.finish] at h
    split at h
    · rename_i f hphase
      simp only [Option.ite_none_left_eq_some, Option.some.injEq] at h
      obtain ⟨-, rfl⟩ := h
      refine hmove (s.setState f st) _ rfl rfl rfl (by simp [hphase, IOPhase.counted]) ?_
      split <;> rfl
    · cases h
  · simp only [IOWorkers.requeue] at h
    split at h
    · rename_i hphase
      cases h
      refine hmove _ _ rfl rfl rfl (by simp [hphase, IOPhase.counted]) ?_
      split <;> rfl
    · cases h

/-- The steps in and out of the idle fiber. -/
theorem counts_idle (hs : s.Counts) (hw : w < s.threads)
    (h : s.enterIdle w = some t ∨ s.sleep w = some t ∨ s.stop w = some t ∨
      (∃ tickled, s.wake w tickled = some t) ∨ s.drain w = some t ∨ s.leaveIdle w = some t) :
    t.Counts := by
  have hpos : (s.phase w).counted = true → 0 < s.idleThreadCount := hs.pos hw
  rcases h with h | h | h | ⟨tickled, h⟩ | h | h
  · simp only [IOWorkers.enterIdle] at h
    split at h
    · rename_i hphase
      split at h <;> cases h <;> exact hs.setPhase hw rfl rfl (by rw [hphase]; rfl)
    · cases h
  · simp only [IOWorkers.sleep] at h
    split at h
    · rename_i hphase
      cases h
      exact hs.setPhase hw rfl rfl (by rw [hphase]; rfl)
    · cases h
  · simp only [IOWorkers.stop] at h
    split at h
    · rename_i hphase
      simp only [Option.ite_none_right_eq_some, Option.some.injEq] at h
      obtain ⟨-, rfl⟩ := h
      have := hpos (by rw [hphase]; rfl)
      refine hs.setPhase hw rfl rfl ?_
      rw [hphase]
      exact Nat.sub_add_cancel this
    · cases h
  · simp only [IOWorkers.wake] at h
    split at h
    · rename_i hphase
      simp only [Option.ite_none_left_eq_some, Option.some.injEq] at h
      obtain ⟨-, rfl⟩ := h
      exact hs.setPhase hw rfl rfl (by rw [hphase]; rfl)
    · cases h
  · simp only [IOWorkers.drain] at h
    split at h
    · rename_i hphase
      cases h
      exact hs.setPhase hw rfl rfl (by rw [hphase]; rfl)
    · cases h
  · simp only [IOWorkers.leaveIdle] at h
    split at h
    · rename_i hphase
      cases h
      have := hpos (by rw [hphase]; rfl)
      refine hs.setPhase hw rfl rfl ?_
      rw [hphase]
      exact Nat.sub_add_cancel this
    · cases h

theorem counts_step {a : TickleAction} (hs : s.Counts) (h : s.step a = some t) : t.Counts := by
  simp only [IOWorkers.step, Option.ite_none_left_eq_some] at h
  obtain ⟨hworker, h⟩ := h
  have hlt : ∀ w, a.worker = some w → w < s.threads := fun w ha => by simpa [ha] using hworker
  cases a with
  | schedule es =>
    cases h
    exact hs
  | scheduleTickle =>
    simp only [IOWorkers.scheduleTickle, Option.ite_none_right_eq_some, Option.some.injEq] at h
    obtain ⟨-, rfl⟩ := h
    exact Counts.tickle (s := { s with tickles := s.tickles - 1 }) hs
  | notify =>
    cases h
    exact hs.tickle
  | workerTickle w => exact counts_tickling hs (hlt w rfl) h
  | scan w => exact counts_loop hs (hlt w rfl) (.inl h)
  | swapIn w f => exact counts_loop hs (hlt w rfl) (.inr (.inl ⟨f, h⟩))
  | drop w => exact counts_loop hs (hlt w rfl) (.inr (.inr (.inl h)))
  | finish w st => exact counts_loop hs (hlt w rfl) (.inr (.inr (.inr (.inl ⟨st, h⟩))))
  | requeue w => exact counts_loop hs (hlt w rfl) (.inr (.inr (.inr (.inr h))))
  | enterIdle w => exact counts_idle hs (hlt w rfl) (.inl h)
  | sleep w => exact counts_idle hs (hlt w rfl) (.inr (.inl h))
  | stop w => exact counts_idle hs (hlt w rfl) (.inr (.inr (.inl h)))
  | wake w tickled => exact counts_idle hs (hlt w rfl) (.inr (.inr (.inr (.inl ⟨tickled, h⟩))))
  | drain w => exact counts_idle hs (hlt w rfl) (.inr (.inr (.inr (.inr (.inl h)))))
  | leaveIdle w => exact counts_idle hs (hlt w rfl) (.inr (.inr (.inr (.inr (.inr h)))))

end IOWorkers

end CppServerFramework.Async

import CppServerFramework.Async.CallbacksProps

/-!
# The thread of a task

The thread that a task is scheduled for stands in its queue entry only.  `Affinity` keeps it
beside the scheduler of `Scheduler.lean` for as long as the task lives: with the entry, with the
worker that has taken the entry, and with the entry that the worker makes when the fiber of the
task is `READY`.
-/

namespace CppServerFramework.Async

/-- A scheduler with the entries of its queue, each of them with the thread in the call of
    `schedule` that it goes back to, and that thread of the entry that each worker has taken
    last. -/
structure Affinity where
  sched : Scheduler
  entries : List (FiberAndThread × Option Nat) := []
  thread : Nat → Option Nat := fun _ => none

namespace Affinity

/-- The scheduler has made the step to `t`. -/
def follow (s : Affinity) (t : Scheduler) : SchedAction → Affinity
  | .schedule j thread => { s with sched := t, entries := s.entries ++ [(⟨j, thread⟩, thread)] }
  | .scan w =>
    let fits := fun e : FiberAndThread × Option Nat => e.1.fits s.sched.state w
    { sched := t
      entries := s.entries.eraseP fits
      thread := match s.entries.find? fits with
        | some e => Function.update s.thread w e.2
        | none => s.thread }
  | .finish w =>
    match (s.sched.workers w).phase with
    | .requeue f _ => { s with
        sched := t
        entries := s.entries ++ [(⟨.fiber f, none⟩, s.thread w)] }
    | _ => { s with sched := t }
  | _ => { s with sched := t }

def step (s : Affinity) (a : SchedAction) : Option Affinity :=
  (s.sched.step a).map fun t => s.follow t a

/-- Every worker that executes a slice of a task is the thread of the task, if it has one. -/
def Affine (s : Affinity) : Prop :=
  ∀ w < s.sched.threads, ∀ f r, (s.sched.workers w).phase = .running f r →
    ∀ t, s.thread w = some t → t = w

end Affinity

/-- Any number of workers, each about to enter the loop. -/
def affinityMachine : Machine Affinity SchedAction where
  init s := ∃ threads, s = { sched := { threads := threads } }
  step := Affinity.step

/-- The condition on a step: a fiber that is `READY` and is scheduled again belongs to a task
    without a thread, unless there is one worker only. -/
def AffinityGuard (s : Affinity) : SchedAction → Prop
  | .finish w => ∀ f r, (s.sched.workers w).phase = .requeue f r →
    s.thread w = none ∨ s.sched.threads ≤ 1
  | _ => True

namespace Scheduler

variable {s t : Scheduler}

/-- What a step makes of the queue. -/
def queueAfter (s : Scheduler) : SchedAction → List FiberAndThread
  | .schedule j thread => s.queue ++ [⟨j, thread⟩]
  | .scan w => s.queue.eraseP (FiberAndThread.fits s.state w)
  | .finish w =>
    match (s.workers w).phase with
    | .requeue f _ => s.queue ++ [⟨.fiber f, none⟩]
    | _ => s.queue
  | _ => s.queue

theorem scan_queue {w : Nat} (h : s.scan w = some t) :
    t.threads = s.threads ∧ t.queue = s.queueAfter (.scan w) := by
  rw [queueAfter]
  cases he : s.queue.find? (FiberAndThread.fits s.state w) with
  | none =>
    have hp := scan_phase h
    simp only [scan, hp, (scanQueue_eq _ _ _).1, he] at h
    cases h
    refine ⟨rfl, ?_⟩
    change s.queue = s.queue.eraseP _
    rw [List.eraseP_of_forall_not]
    simpa using he
  | some e =>
    rw [scan_some h he]
    exact ⟨rfl, rfl⟩

theorem finish_queue {w : Nat} (h : s.finish w = some t) :
    t.threads = s.threads ∧ t.queue = s.queueAfter (.finish w) := by
  rw [queueAfter]
  cases hp : (s.workers w).phase with
  | requeue f r | holding f r => cases r <;> rw [finish, hp] at h <;> cases h <;> exact ⟨rfl, rfl⟩
  | resetting f =>
    rw [finish, hp] at h
    dsimp only at h
    split at h <;> cases h
    exact ⟨rfl, rfl⟩
  | _ =>
    rw [finish, hp] at h
    cases h

theorem step_queue {a : SchedAction} (h : s.step a = some t) :
    t.threads = s.threads ∧ t.queue = s.queueAfter a := by
  unfold step at h
  split at h
  · cases h
  cases a with
  | create =>
    cases h
    exact ⟨rfl, rfl⟩
  | schedule j thread =>
    dsimp only at h
    split at h <;> cases h
    exact ⟨rfl, rfl⟩
  | scan w => exact scan_queue h
  | finish w => exact finish_queue h
  | prepare w =>
    simp only [prepare] at h
    split at h
    · cases h
      exact ⟨rfl, rfl⟩
    · split at h
      · split at h <;> cases h
        exact ⟨rfl, rfl⟩
      · cases h
        exact ⟨rfl, rfl⟩
    · cases h
  | swapIn w =>
    simp only [swapIn] at h
    split at h
    · split at h <;> cases h
      exact ⟨rfl, rfl⟩
    · split at h <;> cases h
      exact ⟨rfl, rfl⟩
    · cases h
  | yieldToReady w =>
    simp only [yieldToReady] at h
    split at h <;> cases h
    exact ⟨rfl, rfl⟩
  | yieldToHold w =>
    simp only [yieldToHold] at h
    split at h <;> cases h <;> exact ⟨rfl, rfl⟩
  | terminate w | throw w =>
    simp only [leave] at h
    split at h <;> cases h <;> exact ⟨rfl, rfl⟩
  | swapOut w =>
    simp only [swapOut] at h
    split at h <;> cases h
    exact ⟨rfl, rfl⟩
  | settle w =>
    simp only [settle] at h
    split at h <;> cases h <;> exact ⟨rfl, rfl⟩

end Scheduler

namespace Affinity

open Scheduler

variable {s t : Affinity}

/-- What guarded runs keep: the entries are those of the queue, an entry is pinned to the thread of
    its task, or there is one worker only, and every worker has taken what it may run. -/
structure Inv (s : Affinity) : Prop where
  queue : s.entries.map Prod.fst = s.sched.queue
  pinned : ∀ e ∈ s.entries, e.2 = e.1.thread ∨ s.sched.threads ≤ 1 ∧ ∀ t, e.2 = some t → t = 0
  taken : ∀ w < s.sched.threads, ∀ t, s.thread w = some t → t = w

theorem Inv.take {u : Scheduler} {w : Nat} (h : s.Inv)
    (hu : s.sched.step (.scan w) = some u) : (s.follow u (.scan w)).Inv := by
  obtain ⟨hthreads, hqueue⟩ := step_queue hu
  have hsub : ∀ e ∈ (s.follow u (.scan w)).entries, e ∈ s.entries := fun _ =>
    List.mem_of_mem_eraseP
  refine ⟨?_, fun e he => hthreads ▸ h.pinned e (hsub e he), ?_⟩
  · rw [show (s.follow u (.scan w)).sched = u from rfl, hqueue, queueAfter, ← h.queue,
      List.eraseP_map]
    rfl
  · intro v hv t ht
    change v < u.threads at hv
    rw [hthreads] at hv
    cases hfind : s.entries.find? (fun e => e.1.fits s.sched.state w) with
    | none =>
      simp only [follow, hfind] at ht
      exact h.taken v hv t ht
    | some e =>
      simp only [follow, hfind] at ht
      by_cases hne : v = w
      · rw [hne, Function.update_self] at ht
        rw [hne]
        have hfits := List.find?_some hfind
        simp only [FiberAndThread.fits, FiberAndThread.mayRun, Bool.and_eq_true,
          decide_eq_true_eq] at hfits
        rcases h.pinned e (List.mem_of_find?_eq_some hfind) with heq | ⟨hone, hzero⟩
        · rw [← heq, ht] at hfits
          rcases hfits.1 with hnone | hsome
          · cases hnone
          · exact Option.some.inj hsome
        · have := hzero t ht
          omega
      · rw [Function.update_of_ne hne] at ht
        exact h.taken v hv t ht

/-- An entry behind the queue. -/
theorem Inv.push {u : Scheduler} {e : FiberAndThread × Option Nat} (h : s.Inv)
    (hthreads : u.threads = s.sched.threads) (hqueue : u.queue = s.sched.queue ++ [e.1])
    (he : e.2 = e.1.thread ∨ s.sched.threads ≤ 1 ∧ ∀ t, e.2 = some t → t = 0) :
    ({ s with sched := u, entries := s.entries ++ [e] } : Affinity).Inv := by
  refine ⟨?_, ?_, fun w hw => h.taken w (hthreads ▸ hw)⟩
  · rw [List.map_append, h.queue, hqueue]
    rfl
  · intro x hx
    rw [hthreads]
    rcases List.mem_append.mp hx with hx | hx
    · exact h.pinned x hx
    · rw [List.mem_singleton.mp hx]
      exact he

theorem Inv.same {u : Scheduler} (h : s.Inv) (hthreads : u.threads = s.sched.threads)
    (hqueue : u.queue = s.sched.queue) : ({ s with sched := u } : Affinity).Inv :=
  ⟨h.queue.trans hqueue.symm, fun e he => hthreads ▸ h.pinned e he,
    fun w hw => h.taken w (hthreads ▸ hw)⟩

theorem Inv.step {a : SchedAction} (h : s.Inv) (hguard : AffinityGuard s a)
    (hs : s.step a = some t) : t.Inv := by
  obtain ⟨u, hu, rfl⟩ := Option.map_eq_some_iff.mp hs
  obtain ⟨hthreads, hqueue⟩ := step_queue hu
  have hlt : ∀ w, a.worker = some w → w < s.sched.threads := by
    intro w hw
    by_contra hle
    unfold Scheduler.step at hu
    rw [hw, Option.any_some, if_pos (by simpa using hle)] at hu
    cases hu
  cases a with
  | schedule j thread => exact h.push hthreads hqueue (Or.inl rfl)
  | scan w => exact h.take hu
  | finish w =>
    rw [queueAfter] at hqueue
    rw [follow]
    cases hp : (s.sched.workers w).phase with
    | requeue f r =>
      rw [hp] at hqueue
      refine h.push hthreads hqueue ?_
      rcases hguard _ _ hp with hnone | hone
      · exact Or.inl hnone
      · refine Or.inr ⟨hone, fun t ht => ?_⟩
        have heq := h.taken w (hlt w rfl) t ht
        have hw := hlt w rfl
        omega
    | _ =>
      rw [hp] at hqueue
      exact h.same hthreads hqueue
  | _ => exact h.same hthreads hqueue

/-- In every state of a run whose steps meet the guard, every slice of a task with a thread is
    executed by that thread. -/
theorem affinity_kept (h : affinityMachine.Reach AffinityGuard s) : s.Affine := by
  have hinv : s.Inv := by
    refine h.invariant (P := Inv) ?_ fun s a t hs hg hstep => hs.step hg hstep
    rintro s ⟨threads, rfl⟩
    exact ⟨rfl, fun _ he => (nomatch he), fun _ _ _ ht => (nomatch ht)⟩
  exact fun w hw f r _ => hinv.taken w hw

/-- Worker 0 passes the callback for worker 1, which takes it and executes it. -/
def pinnedOnce : List SchedAction :=
  [.schedule .cb (some 1), .scan 0, .scan 1, .prepare 1, .swapIn 1]

theorem affinity_kept_pinnedOnce :
    ∃ s, affinityMachine.run { sched := { threads := 2 } } pinnedOnce = some s ∧
      (s.sched.workers 1).phase = .running 0 .cb ∧ s.thread 1 = some 1 ∧ s.Affine := by
  refine ⟨_, rfl, rfl, rfl, affinity_kept (.of_run pinnedOnce (.init ⟨2, rfl⟩) ?_ rfl)⟩
  apply Machine.meets_of_forall
  intro a ha s
  fin_cases ha <;> trivial

/-- The callback for worker 1 yields to the state `READY`, and worker 0 takes its fiber. -/
def pinnedYields : List SchedAction :=
  [.schedule .cb (some 1), .scan 1, .prepare 1, .swapIn 1, .yieldToReady 1, .swapOut 1, .settle 1,
    .finish 1, .scan 0, .prepare 0, .swapIn 0]

theorem affinity_lost : ¬∀ s, affinityMachine.Reachable s → s.Affine := by
  intro h
  have haffine := h _ (.of_run pinnedYields (s := { sched := { threads := 2 } }) ⟨2, rfl⟩ rfl)
  have hworker := haffine 0 (by decide) 0 .task rfl 1 rfl
  cases hworker

end Affinity

end CppServerFramework.Async

import CppServerFramework.Async.Callbacks
import CppServerFramework.Async.SchedulerProps
import Mathlib.Tactic.FinCases

/-!
# Every callback is run once

A fiber is in one place at a time: one entry of the queue, one worker, or neither.  With this, the
books of `Callbacks.lean` follow every step of the workers, whatever their order.
-/

namespace CppServerFramework.Async

namespace Scheduler

/-- A fiber is in one place, and what a worker keeps for its next callback is in no other. -/
structure Sole (s : Scheduler) : Prop where
  unique : ∀ w w' f, s.Has w f → s.Has w' f → w = w'
  unqueued : ∀ w f, s.Has w f → ∀ e ∈ s.queue, e.task ≠ .fiber f
  once : s.queue.Pairwise fun e e' => ∀ f, e.task = .fiber f → e'.task ≠ .fiber f
  asCb : ∀ w f, (s.workers w).phase.asCb = some f → (s.workers w).cbFiber = some f
  keptUnqueued : ∀ w f, (s.workers w).cbFiber = some f → ∀ e ∈ s.queue, e.task ≠ .fiber f
  keptHas : ∀ w w' f, (s.workers w).cbFiber = some f → s.Has w' f →
    (s.workers w').phase.asCb = some f
  keptUnique : ∀ w w' f, (s.workers w).cbFiber = some f → (s.workers w').cbFiber = some f → w = w'
  hasCreated : ∀ w f, s.Has w f → f < s.created
  queueCreated : ∀ e ∈ s.queue, ∀ f, e.task = .fiber f → f < s.created
  keptCreated : ∀ w f, (s.workers w).cbFiber = some f → f < s.created

variable {s t : Scheduler} {w f : Nat}

/-- A worker goes on with the fiber it has, or lets go of it. -/
theorem Sole.move (h : s.Sole) (hthreads : t.threads = s.threads) (hcreated : t.created = s.created)
    (hqueue : t.queue = s.queue) (hothers : ∀ w', w' ≠ w → t.workers w' = s.workers w')
    (hcb : ∀ f, (t.workers w).cbFiber = some f → (s.workers w).cbFiber = some f)
    (hfiber : ∀ f, (t.workers w).phase.fiber = some f → (s.workers w).phase.fiber = some f ∧
      ((s.workers w).phase.asCb = some f → (t.workers w).phase.asCb = some f))
    (hasCb : ∀ f, (t.workers w).phase.asCb = some f → (t.workers w).cbFiber = some f) :
    t.Sole := by
  have hhas : ∀ w' f, t.Has w' f → s.Has w' f ∧
      ((s.workers w').phase.asCb = some f → (t.workers w').phase.asCb = some f) := by
    rintro w' f ⟨hw', hf⟩
    rw [hthreads] at hw'
    by_cases hne : w' = w
    · subst hne
      exact ⟨⟨hw', (hfiber f hf).1⟩, (hfiber f hf).2⟩
    · rw [hothers w' hne] at hf ⊢
      exact ⟨⟨hw', hf⟩, id⟩
  have hkept : ∀ w' f, (t.workers w').cbFiber = some f → (s.workers w').cbFiber = some f := by
    intro w' f hf
    by_cases hne : w' = w
    · subst hne
      exact hcb f hf
    · rwa [hothers w' hne] at hf
  refine ⟨?_, ?_, hqueue ▸ h.once, ?_, ?_, ?_, ?_, ?_, ?_, ?_⟩
  · exact fun u v g hu hv => h.unique u v g (hhas u g hu).1 (hhas v g hv).1
  · exact fun u g hu => hqueue ▸ h.unqueued u g (hhas u g hu).1
  · intro w' f hf
    by_cases hne : w' = w
    · subst hne
      exact hasCb f hf
    · rw [hothers w' hne] at hf ⊢
      exact h.asCb w' f hf
  · exact fun u g hu => hqueue ▸ h.keptUnqueued u g (hkept u g hu)
  · exact fun u v g hu hv => (hhas v g hv).2 (h.keptHas u v g (hkept u g hu) (hhas v g hv).1)
  · exact fun u v g hu hv => h.keptUnique u v g (hkept u g hu) (hkept v g hv)
  · exact fun u g hu => hcreated ▸ h.hasCreated u g (hhas u g hu).1
  · exact fun e he g hg => hcreated ▸ h.queueCreated e (hqueue ▸ he) g hg
  · exact fun u g hu => hcreated ▸ h.keptCreated u g (hkept u g hu)

/-- A fiber that is in no place may be scheduled. -/
def Suspended (s : Scheduler) (f : Nat) : Prop :=
  (∀ e ∈ s.queue, e.task ≠ .fiber f) ∧
  ∀ w, ¬s.Has w f ∧ (s.workers w).cbFiber ≠ some f

theorem Sole.enqueue (h : s.Sole) (hsus : s.Suspended f) (hf : f < s.created)
    (thread : Option Nat) : (s.scheduleNoLock (.fiber f) thread).Sole := by
  have hqueue : ∀ g, (∀ e ∈ s.queue, e.task ≠ .fiber g) → g ≠ f →
      ∀ e ∈ (s.scheduleNoLock (.fiber f) thread).queue, e.task ≠ .fiber g := by
    intro g hg hne e he
    rcases List.mem_append.mp he with he | he
    · exact hg e he
    · rw [List.mem_singleton.mp he]
      exact fun heq => hne (Job.fiber.inj heq).symm
  refine ⟨h.unique, ?_, ?_, h.asCb, ?_, h.keptHas, h.keptUnique, h.hasCreated, ?_, h.keptCreated⟩
  · intro w g hw
    exact hqueue g (h.unqueued w g hw) fun heq => (hsus.2 w).1 (heq ▸ hw)
  · refine List.pairwise_append.mpr ⟨h.once, List.pairwise_singleton _ _, ?_⟩
    intro e he e' he' g hg hg'
    rw [List.mem_singleton.mp he'] at hg'
    exact hsus.1 e he (Job.fiber.inj hg' ▸ hg)
  · intro w g hw
    exact hqueue g (h.keptUnqueued w g hw) fun heq => (hsus.2 w).2 (heq ▸ hw)
  · intro e he g hg
    rcases List.mem_append.mp he with he | he
    · exact h.queueCreated e he g hg
    · rw [List.mem_singleton.mp he] at hg
      exact Job.fiber.inj hg ▸ hf

theorem Sole.enqueueCb (h : s.Sole) (thread : Option Nat) :
    (s.scheduleNoLock .cb thread).Sole := by
  have hqueue : ∀ g, (∀ e ∈ s.queue, e.task ≠ .fiber g) →
      ∀ e ∈ (s.scheduleNoLock .cb thread).queue, e.task ≠ .fiber g := by
    intro g hg e he
    rcases List.mem_append.mp he with he | he
    · exact hg e he
    · rw [List.mem_singleton.mp he]
      simp
  refine ⟨h.unique, fun w g hw => hqueue g (h.unqueued w g hw), ?_, h.asCb,
    fun w g hw => hqueue g (h.keptUnqueued w g hw), h.keptHas, h.keptUnique, h.hasCreated, ?_,
    h.keptCreated⟩
  · refine List.pairwise_append.mpr ⟨h.once, List.pairwise_singleton _ _, ?_⟩
    intro e he e' he' g hg
    rw [List.mem_singleton.mp he']
    simp
  · intro e he g hg
    rcases List.mem_append.mp he with he | he
    · exact h.queueCreated e he g hg
    · rw [List.mem_singleton.mp he] at hg
      cases hg

theorem Sole.create (h : s.Sole) : ({ s with created := s.created + 1 } : Scheduler).Sole :=
  ⟨h.unique, h.unqueued, h.once, h.asCb, h.keptUnqueued, h.keptHas, h.keptUnique,
    fun w f hw => Nat.lt_succ_of_lt (h.hasCreated w f hw),
    fun e he f hf => Nat.lt_succ_of_lt (h.queueCreated e he f hf),
    fun w f hw => Nat.lt_succ_of_lt (h.keptCreated w f hw)⟩

/-- A worker without a fiber takes an entry. -/
theorem Sole.claim (h : s.Sole) (hnone : (s.workers w).phase.asCb = none)
    {l r : List FiberAndThread} {e : FiberAndThread} (hl : s.queue = l ++ e :: r) :
    ({ s with queue := l ++ r }.setPhase w (.claimed e.task)).Sole := by
  have hsub : ∀ x ∈ l ++ r, x ∈ s.queue := by
    rw [hl]
    exact List.Sublist.subset ((List.Sublist.refl l).append (List.sublist_cons_self e r))
  have hmem : e ∈ s.queue := hl ▸ List.mem_append_right l (by simp)
  have honce := h.once
  rw [hl, List.pairwise_middle (by
    intro a b hab f hf hf'
    exact hab f hf' hf), List.pairwise_cons] at honce
  set t := ({ s with queue := l ++ r } : Scheduler).setPhase w (.claimed e.task) with ht
  have hself : t.workers w = { s.workers w with phase := .claimed e.task } :=
    Function.update_self _ _ _
  have hother : ∀ w', w' ≠ w → t.workers w' = s.workers w' := fun w' hne =>
    Function.update_of_ne hne _ _
  have hcb : ∀ w', (t.workers w').cbFiber = (s.workers w').cbFiber := by
    intro w'
    by_cases hne : w' = w
    · rw [hne, hself]
    · rw [hother w' hne]
  have hasCb : ∀ w', (t.workers w').phase.asCb = (s.workers w').phase.asCb := by
    intro w'
    by_cases hne : w' = w
    · rw [hne, hself, hnone]
      rfl
    · rw [hother w' hne]
  have hhas : ∀ w' g, t.Has w' g → w' = w ∧ e.task = .fiber g ∨ w' ≠ w ∧ s.Has w' g := by
    rintro w' g ⟨hw', hg⟩
    by_cases hne : w' = w
    · rw [hne, hself] at hg
      refine Or.inl ⟨hne, ?_⟩
      cases htask : e.task with
      | fiber f =>
        rw [htask] at hg
        exact congrArg Job.fiber (Option.some.inj hg)
      | cb =>
        rw [htask] at hg
        cases hg
    · rw [hother w' hne] at hg
      exact Or.inr ⟨hne, hw', hg⟩
  refine ⟨?_, ?_, honce.2, ?_, ?_, ?_, ?_, ?_, ?_, ?_⟩
  · intro u v g hu hv
    rcases hhas u g hu with ⟨hu', htask⟩ | ⟨-, hu'⟩ <;>
      rcases hhas v g hv with ⟨hv', htask'⟩ | ⟨-, hv'⟩
    · rw [hu', hv']
    · exact absurd htask (h.unqueued v g hv' e hmem)
    · exact absurd htask' (h.unqueued u g hu' e hmem)
    · exact h.unique u v g hu' hv'
  · intro u g hu x hx
    rcases hhas u g hu with ⟨-, hu⟩ | ⟨-, hu⟩
    · exact honce.1 x hx g hu
    · exact h.unqueued u g hu x (hsub x hx)
  · intro u g hu
    rw [hcb]
    exact h.asCb u g (hasCb u ▸ hu)
  · intro u g hu x hx
    exact h.keptUnqueued u g (hcb u ▸ hu) x (hsub x hx)
  · intro u v g hu hv
    rw [hasCb]
    rcases hhas v g hv with ⟨-, hv⟩ | ⟨-, hv⟩
    · exact absurd hv (h.keptUnqueued u g (hcb u ▸ hu) e hmem)
    · exact h.keptHas u v g (hcb u ▸ hu) hv
  · exact fun u v g hu hv => h.keptUnique u v g (hcb u ▸ hu) (hcb v ▸ hv)
  · intro u g hu
    rcases hhas u g hu with ⟨-, hu⟩ | ⟨-, hu⟩
    · exact h.queueCreated e hmem g hu
    · exact h.hasCreated u g hu
  · exact fun x hx g hg => h.queueCreated x (hsub x hx) g hg
  · exact fun u g hu => h.keptCreated u g (hcb u ▸ hu)

/-- A worker without a fiber enters the one it keeps, which it has perhaps just made. -/
theorem Sole.enter (h : s.Sole) (hthreads : t.threads = s.threads)
    (hcreated : s.created ≤ t.created) (hqueue : t.queue = s.queue)
    (hothers : ∀ w', w' ≠ w → t.workers w' = s.workers w')
    (hself : t.workers w = { s.workers w with phase := .entering f .cb, cbFiber := some f })
    (hnone : (s.workers w).phase.fiber = none) (hf : f < t.created)
    (hkept : (s.workers w).cbFiber = some f ∨ s.created ≤ f) : t.Sole := by
  have hfreeHas : ∀ w', ¬s.Has w' f := by
    intro w' hw'
    rcases hkept with hkept | hfresh
    · have hcb := h.asCb w' f (h.keptHas w w' f hkept hw')
      obtain rfl := h.keptUnique w w' f hkept hcb
      rw [hw'.2] at hnone
      cases hnone
    · exact absurd (h.hasCreated w' f hw') (Nat.not_lt.mpr hfresh)
  have hfreeQueue : ∀ e ∈ s.queue, e.task ≠ .fiber f := by
    rcases hkept with hkept | hfresh
    · exact h.keptUnqueued w f hkept
    · exact fun e he heq => absurd (h.queueCreated e he f heq) (Nat.not_lt.mpr hfresh)
  have hfreeKept : ∀ w', w' ≠ w → (s.workers w').cbFiber ≠ some f := by
    intro w' hne hw'
    rcases hkept with hkept | hfresh
    · exact hne (h.keptUnique w w' f hkept hw').symm
    · exact absurd (h.keptCreated w' f hw') (Nat.not_lt.mpr hfresh)
  have hhas : ∀ w' g, t.Has w' g → w' = w ∧ g = f ∨ w' ≠ w ∧ g ≠ f ∧ s.Has w' g := by
    rintro w' g ⟨hw', hg⟩
    by_cases hne : w' = w
    · rw [hne, hself] at hg
      exact Or.inl ⟨hne, (Option.some.inj hg).symm⟩
    · rw [hothers w' hne] at hg
      have hg : s.Has w' g := ⟨hthreads ▸ hw', hg⟩
      exact Or.inr ⟨hne, fun heq => hfreeHas w' (heq ▸ hg), hg⟩
  have hcb : ∀ w' g, (t.workers w').cbFiber = some g →
      w' = w ∧ g = f ∨ w' ≠ w ∧ g ≠ f ∧ (s.workers w').cbFiber = some g := by
    intro w' g hg
    by_cases hne : w' = w
    · rw [hne, hself] at hg
      exact Or.inl ⟨hne, (Option.some.inj hg).symm⟩
    · rw [hothers w' hne] at hg
      exact Or.inr ⟨hne, fun heq => hfreeKept w' hne (heq ▸ hg), hg⟩
  have hasCb : (t.workers w).phase.asCb = some f := by rw [hself]; rfl
  refine ⟨?_, ?_, hqueue ▸ h.once, ?_, ?_, ?_, ?_, ?_, ?_, ?_⟩
  · intro u v g hu hv
    rcases hhas u g hu with ⟨hu', hg⟩ | ⟨-, hne, hu'⟩ <;>
      rcases hhas v g hv with ⟨hv', hg'⟩ | ⟨-, hne', hv'⟩
    · rw [hu', hv']
    · exact absurd hg hne'
    · exact absurd hg' hne
    · exact h.unique u v g hu' hv'
  · intro u g hu
    rw [hqueue]
    rcases hhas u g hu with ⟨-, rfl⟩ | ⟨-, -, hu'⟩
    · exact hfreeQueue
    · exact h.unqueued u g hu'
  · intro u g hu
    by_cases hne : u = w
    · rw [hne, hself] at hu ⊢
      exact hu
    · rw [hothers u hne] at hu ⊢
      exact h.asCb u g hu
  · intro u g hu
    rw [hqueue]
    rcases hcb u g hu with ⟨-, rfl⟩ | ⟨-, -, hu'⟩
    · exact hfreeQueue
    · exact h.keptUnqueued u g hu'
  · intro u v g hu hv
    rcases hhas v g hv with ⟨rfl, rfl⟩ | ⟨hne, hg, hv'⟩
    · exact hasCb
    · rcases hcb u g hu with ⟨-, hg'⟩ | ⟨-, -, hu'⟩
      · exact absurd hg' hg
      · rw [hothers v hne]
        exact h.keptHas u v g hu' hv'
  · intro u v g hu hv
    rcases hcb u g hu with ⟨hu', hg⟩ | ⟨-, hne, hu'⟩ <;>
      rcases hcb v g hv with ⟨hv', hg'⟩ | ⟨-, hne', hv'⟩
    · rw [hu', hv']
    · exact absurd hg hne'
    · exact absurd hg' hne
    · exact h.keptUnique u v g hu' hv'
  · intro u g hu
    rcases hhas u g hu with ⟨-, rfl⟩ | ⟨-, -, hu'⟩
    · exact hf
    · exact Nat.lt_of_lt_of_le (h.hasCreated u g hu') hcreated
  · exact fun e he g hg => Nat.lt_of_lt_of_le (h.queueCreated e (hqueue ▸ he) g hg) hcreated
  · intro u g hu
    rcases hcb u g hu with ⟨-, rfl⟩ | ⟨-, -, hu'⟩
    · exact hf
    · exact Nat.lt_of_lt_of_le (h.keptCreated u g hu') hcreated

/-! ## What a worker does with its fiber -/

def Ended (s : Scheduler) (f : Nat) : Prop := s.state f = .term ∨ s.state f = .except

/-- The worker goes on with the fiber it has, lets go of one that has ended, or puts it on hold. -/
structure Advances (s : Scheduler) (w : Nat) (t : Scheduler) : Prop where
  threads : t.threads = s.threads
  created : t.created = s.created
  queue : t.queue = s.queue
  others : ∀ w', w' ≠ w → t.workers w' = s.workers w'
  state : ∀ f, (s.workers w).phase.fiber ≠ some f → t.state f = s.state f
  cbFiber : ∀ f, (t.workers w).cbFiber = some f → (s.workers w).cbFiber = some f
  fiber : ∀ f, (t.workers w).phase.fiber = some f → (s.workers w).phase.fiber = some f ∧
    ((s.workers w).phase.asCb = some f → (t.workers w).phase.asCb = some f)
  asCb : ∀ f, (t.workers w).phase.asCb = some f → (s.workers w).phase.asCb = some f ∧
    (t.workers w).cbFiber = (s.workers w).cbFiber
  goes : ∀ f, (s.workers w).phase.fiber = some f →
    ((t.workers w).phase.fiber = some f ∧ (t.workers w).phase ≠ .resetting f) ∨
    s.Ended f ∨ (s.workers w).phase = .resetting f ∨
    (t.state f = .hold ∧ ((s.workers w).phase.asCb = some f → (t.workers w).cbFiber = none))
  unclaimed : (s.workers w).phase ≠ .claimed .cb ∧ (t.workers w).phase ≠ .claimed .cb

theorem Sole.advance (h : s.Sole) (ha : s.Advances w t) : t.Sole :=
  h.move ha.threads ha.created ha.queue ha.others ha.cbFiber ha.fiber fun f hf =>
    (ha.asCb f hf).2.trans (h.asCb w f (ha.asCb f hf).1)

/-- The step is one of a worker in phase `p`, which becomes `x`. -/
structure StepOf (s : Scheduler) (w : Nat) (p : Phase) (st : Nat → FiberState) (x : Worker)
    (t : Scheduler) : Prop where
  phase : (s.workers w).phase = p
  next : t = { s with state := st, workers := Function.update s.workers w x }

variable {p : Phase} {st : Nat → FiberState} {x : Worker}

theorem StepOf.self (h : StepOf s w p st x t) : t.workers w = x := by
  rw [h.next]
  exact Function.update_self _ _ _

theorem StepOf.others (h : StepOf s w p st x t) (w' : Nat) (hne : w' ≠ w) :
    t.workers w' = s.workers w' := by
  rw [h.next]
  exact Function.update_of_ne hne _ _

/-- The worker keeps its fiber. -/
theorem StepOf.keeps (h : StepOf s w p st x t) (hfiber : x.phase.fiber = p.fiber)
    (hasCb : x.phase.asCb = p.asCb) (hreset : ∀ f, x.phase = .resetting f → s.Ended f)
    (hcb : x.cbFiber = (s.workers w).cbFiber) (hstate : ∀ f, p.fiber ≠ some f → st f = s.state f)
    (hunclaimed : p ≠ .claimed .cb ∧ x.phase ≠ .claimed .cb) : s.Advances w t := by
  have hself := h.self
  have hp := h.phase
  refine ⟨by rw [h.next], by rw [h.next], by rw [h.next], h.others, ?_, ?_, ?_, ?_, ?_, ?_⟩
  · intro f hf
    rw [h.next]
    exact hstate f (hp ▸ hf)
  · intro f hf
    rwa [hself, hcb] at hf
  · intro f hf
    rw [hself] at hf ⊢
    rw [hp, ← hfiber, hasCb]
    exact ⟨hf, id⟩
  · intro f hf
    rw [hself] at hf ⊢
    rw [hp, ← hasCb]
    exact ⟨hf, hcb⟩
  · intro f hf
    rw [hself, hfiber]
    by_cases hx : x.phase = .resetting f
    · exact Or.inr (Or.inl (hreset f hx))
    · exact Or.inl ⟨hp ▸ hf, hx⟩
  · rw [hself, hp]
    exact hunclaimed

/-- The worker lets go of its fiber. -/
theorem StepOf.drops (h : StepOf s w p st x t) (hfiber : x.phase.fiber = none)
    (hasCb : x.phase.asCb = none)
    (hcb : x.cbFiber = (s.workers w).cbFiber ∨ x.cbFiber = none)
    (hstate : ∀ f, p.fiber ≠ some f → st f = s.state f)
    (hgoes : ∀ f, p.fiber = some f → s.Ended f ∨ p = .resetting f ∨
      (st f = .hold ∧ (p.asCb = some f → x.cbFiber = none)))
    (hunclaimed : p ≠ .claimed .cb ∧ x.phase ≠ .claimed .cb) : s.Advances w t := by
  have hself := h.self
  have hp := h.phase
  refine ⟨by rw [h.next], by rw [h.next], by rw [h.next], h.others, ?_, ?_, ?_, ?_, ?_, ?_⟩
  · intro f hf
    rw [h.next]
    exact hstate f (hp ▸ hf)
  · intro f hf
    rw [hself] at hf
    rcases hcb with heq | hnone
    · rwa [heq] at hf
    · rw [hnone] at hf
      cases hf
  · intro f hf
    rw [hself, hfiber] at hf
    cases hf
  · intro f hf
    rw [hself, hasCb] at hf
    cases hf
  · intro f hf
    rw [hself, h.next]
    rcases hgoes f (hp ▸ hf) with hend | hreset | hhold
    · exact Or.inr (Or.inl hend)
    · exact Or.inr (Or.inr (Or.inl (hp.trans hreset)))
    · exact Or.inr (Or.inr (Or.inr ⟨hhold.1, hp ▸ hhold.2⟩))
  · rw [hself, hp]
    exact hunclaimed

theorem update_state_of_ne {f : Nat} {v : FiberState} (g : Nat) (hg : some f ≠ some g) :
    Function.update s.state f v g = s.state g :=
  Function.update_of_ne (fun heq => hg (congrArg some heq.symm)) _ _

/-- A state that is set to another than `TERM` and `EXCEPT` ends no fiber. -/
theorem ended_of_update {f g : Nat} {v : FiberState} (hv : v ≠ .term ∧ v ≠ .except)
    (h : ({ s with state := Function.update s.state f v } : Scheduler).Ended g) : s.Ended g := by
  by_cases hg : g = f
  · subst hg
    simp only [Ended, Function.update_self] at h
    exact absurd h (by simp [hv])
  · simpa [Ended, Function.update_of_ne hg] using h

theorem swapIn_advances (h : s.swapIn w = some t) :
    s.Advances w t ∧ ∀ f, t.Ended f → s.Ended f := by
  unfold swapIn at h
  split at h
  · rename_i f r hp
    split at h
    · cases h
    · cases h
      refine ⟨StepOf.keeps ⟨hp, rfl⟩ rfl ?_ (by simp) rfl update_state_of_ne (by simp), ?_⟩
      · cases r <;> rfl
      · exact fun g hg => ended_of_update (by simp) hg
  · rename_i hp
    split at h
    · cases h
    · cases h
      exact ⟨StepOf.keeps ⟨hp, rfl⟩ rfl rfl (by simp) rfl (fun _ _ => rfl) (by simp),
        fun _ => id⟩
  · cases h

theorem yieldToReady_advances (h : s.yieldToReady w = some t) :
    s.Advances w t ∧ ∀ f, t.Ended f → s.Ended f := by
  unfold yieldToReady at h
  split at h
  · rename_i f r hp
    cases h
    refine ⟨StepOf.keeps ⟨hp, rfl⟩ rfl ?_ (by simp) rfl update_state_of_ne (by simp), ?_⟩
    · cases r <;> rfl
    · exact fun g hg => ended_of_update (by simp) hg
  · cases h

theorem yieldToHold_advances (h : s.yieldToHold w = some t) :
    s.Advances w t ∧ ∀ f, t.Ended f → s.Ended f := by
  unfold yieldToHold at h
  split at h
  · rename_i f r hp
    cases h
    refine ⟨StepOf.keeps ⟨hp, rfl⟩ rfl ?_ (by simp) rfl (fun _ _ => rfl) (by simp), fun _ => id⟩
    cases r <;> rfl
  · rename_i hp
    cases h
    exact ⟨StepOf.keeps ⟨hp, rfl⟩ rfl rfl (by simp) rfl (fun _ _ => rfl) (by simp), fun _ => id⟩
  · cases h

theorem swapOut_advances (h : s.swapOut w = some t) :
    s.Advances w t ∧ ∀ f, t.Ended f → s.Ended f := by
  unfold swapOut at h
  split at h
  · rename_i f r hp
    cases h
    refine ⟨StepOf.keeps ⟨hp, rfl⟩ rfl ?_ (by simp) rfl (fun _ _ => rfl) (by simp), fun _ => id⟩
    cases r <;> rfl
  · cases h

/-- The fiber that a worker is running ends; others do not. -/
theorem leave_advances {v : FiberState} (h : s.leave w v = some t) :
    s.Advances w t ∧ ∀ f, t.Ended f → s.Ended f ∨ ∃ r, (s.workers w).phase = .running f r := by
  unfold leave at h
  split at h
  · rename_i f r hp
    cases h
    refine ⟨StepOf.keeps ⟨hp, rfl⟩ rfl ?_ (by simp) rfl update_state_of_ne (by simp), ?_⟩
    · cases r <;> rfl
    · intro g hg
      by_cases hgf : g = f
      · exact Or.inr ⟨r, hgf ▸ hp⟩
      · refine Or.inl ?_
        simpa [Ended, setState, setPhase, setWorker, Function.update_of_ne hgf] using hg
  · rename_i hp
    cases h
    exact ⟨StepOf.keeps ⟨hp, rfl⟩ rfl rfl (by simp) rfl (fun _ _ => rfl) (by simp),
      fun _ => Or.inl⟩
  · cases h

theorem settle_advances (h : s.settle w = some t) :
    s.Advances w t ∧ ∀ f, t.Ended f → s.Ended f := by
  unfold settle at h
  split at h
  · rename_i f r hp
    cases h
    refine ⟨?_, fun _ => id⟩
    split
    · refine StepOf.keeps ⟨hp, rfl⟩ rfl ?_ (by simp) rfl (fun _ _ => rfl) (by simp)
      cases r <;> rfl
    · split
      · rename_i hend
        cases r with
        | task =>
          refine StepOf.drops ⟨hp, rfl⟩ rfl rfl (Or.inl rfl) (fun _ _ => rfl) ?_ (by simp)
          exact fun g hg => Or.inl (Option.some.inj hg ▸ hend)
        | cb =>
          refine StepOf.keeps ⟨hp, rfl⟩ rfl rfl ?_ rfl (fun _ _ => rfl) (by simp)
          exact fun g hg => Phase.resetting.inj hg ▸ hend
      · refine StepOf.keeps ⟨hp, rfl⟩ rfl ?_ (by simp) rfl (fun _ _ => rfl) (by simp)
        cases r <;> rfl
  · rename_i hp
    cases h
    exact ⟨StepOf.keeps ⟨hp, rfl⟩ rfl rfl (by simp) rfl (fun _ _ => rfl) (by simp), fun _ => id⟩
  · cases h

/-- An entry with a fiber: the fiber is entered, or dropped if it has ended. -/
theorem prepare_advances {f : Nat} (hp : (s.workers w).phase = .claimed (.fiber f))
    (h : s.prepare w = some t) : s.Advances w t ∧ ∀ f, t.Ended f → s.Ended f := by
  rw [prepare, hp] at h
  cases h
  refine ⟨?_, fun _ => id⟩
  split
  · exact StepOf.keeps ⟨hp, rfl⟩ rfl rfl (by simp) rfl (fun _ _ => rfl) (by simp)
  · rename_i hlive
    refine StepOf.drops ⟨hp, rfl⟩ rfl rfl (Or.inl rfl) (fun _ _ => rfl) ?_ (by simp)
    intro g hg
    obtain rfl := Option.some.inj hg
    exact Or.inl (by rw [Ended]; tauto)

/-- An entry with a callback: it is put into the fiber that the worker keeps, or a new one. -/
theorem prepare_cb (hp : (s.workers w).phase = .claimed .cb) (h : s.prepare w = some t) :
    ∃ f, ((s.workers w).cbFiber = some f ∧ t.created = s.created ∨
        s.created = f ∧ t.created = s.created + 1) ∧
      t.threads = s.threads ∧ t.queue = s.queue ∧ t.state = Function.update s.state f .init ∧
      t.workers = Function.update s.workers w
        { s.workers w with phase := .entering f .cb, cbFiber := some f } := by
  rw [prepare, hp] at h
  cases hcb : (s.workers w).cbFiber with
  | some f =>
    simp only [hcb] at h
    split at h
    · cases h
      refine ⟨f, Or.inl ⟨rfl, rfl⟩, rfl, rfl, rfl, ?_⟩
      simp [setPhase, setWorker, setState, hcb]
    · cases h
  | none =>
    simp only [hcb] at h
    cases h
    exact ⟨s.created, Or.inr ⟨rfl, rfl⟩, rfl, rfl, rfl, rfl⟩

/-- A worker that does not schedule its fiber again lets go of it. -/
theorem finish_advances (hp : ∀ f r, (s.workers w).phase ≠ .requeue f r)
    (h : s.finish w = some t) : s.Advances w t ∧ ∀ f, t.Ended f → s.Ended f := by
  unfold finish at h
  split at h
  · rename_i f hq
    exact absurd hq (hp f .task)
  · rename_i f hq
    exact absurd hq (hp f .cb)
  · rename_i f hq
    cases h
    refine ⟨StepOf.drops ⟨hq, rfl⟩ rfl rfl (Or.inl rfl) update_state_of_ne ?_ (by simp),
      fun g hg => ended_of_update (by simp) hg⟩
    intro g hg
    obtain rfl := Option.some.inj hg
    exact Or.inr (Or.inr ⟨Function.update_self _ _ _, by simp [Phase.asCb]⟩)
  · rename_i f hq
    cases h
    refine ⟨StepOf.drops ⟨hq, rfl⟩ rfl rfl (Or.inr rfl) update_state_of_ne ?_ (by simp),
      fun g hg => ended_of_update (by simp) hg⟩
    intro g hg
    obtain rfl := Option.some.inj hg
    exact Or.inr (Or.inr ⟨Function.update_self _ _ _, fun _ => rfl⟩)
  · rename_i f hq
    split at h
    · cases h
      refine ⟨StepOf.drops ⟨hq, rfl⟩ rfl rfl (Or.inl rfl) update_state_of_ne ?_ (by simp),
        fun g hg => ended_of_update (by simp) hg⟩
      intro g hg
      obtain rfl := Option.some.inj hg
      exact Or.inr (Or.inl rfl)
    · cases h
  · cases h

/-- A worker whose fiber is `READY` schedules it again. -/
theorem finish_requeue {f : Nat} {r : Role} (hp : (s.workers w).phase = .requeue f r)
    (h : s.finish w = some t) :
    ∃ x : Worker, x.phase = .scan ∧
      (∀ g, x.cbFiber = some g → (s.workers w).cbFiber = some g) ∧ (r = .cb → x.cbFiber = none) ∧
      t = ({ s with workers := Function.update s.workers w x } : Scheduler).scheduleNoLock
        (.fiber f) none := by
  cases r with
  | task =>
    rw [finish, hp] at h
    cases h
    exact ⟨{ s.workers w with phase := .scan }, rfl, fun _ => id, by simp, rfl⟩
  | cb =>
    rw [finish, hp] at h
    cases h
    exact ⟨{ s.workers w with phase := .scan, cbFiber := none }, rfl, by simp, by simp, rfl⟩

/-- A scan takes the first entry that fits, or finds none. -/
theorem scanQueue_eq (state : Nat → FiberState) (w : Nat) (queue : List FiberAndThread) :
    (scanQueue state w queue).ft = queue.find? (FiberAndThread.fits state w) ∧
      (scanQueue state w queue).rest = queue.eraseP (FiberAndThread.fits state w) := by
  induction queue with
  | nil => exact ⟨rfl, rfl⟩
  | cons e es ih =>
    rw [scanQueue]
    cases hmay : e.mayRun w <;> cases hexec : e.task.isExec state <;>
      simp [FiberAndThread.fits, hmay, hexec, ih.1, ih.2]

theorem scan_phase (h : s.scan w = some t) : (s.workers w).phase = .scan := by
  unfold scan at h
  split at h
  · assumption
  · cases h

theorem scan_none (h : s.scan w = some t)
    (hnone : s.queue.find? (FiberAndThread.fits s.state w) = none) :
    s.Advances w t ∧ ∀ f, t.Ended f → s.Ended f := by
  have hp := scan_phase h
  simp only [scan, hp, (scanQueue_eq _ _ _).1, hnone] at h
  cases h
  refine ⟨?_, fun _ => id⟩
  split <;> exact StepOf.keeps ⟨hp, rfl⟩ rfl rfl (by simp) rfl (fun _ _ => rfl) (by simp)

theorem scan_some {e : FiberAndThread} (h : s.scan w = some t)
    (he : s.queue.find? (FiberAndThread.fits s.state w) = some e) :
    t = ({ s with queue := s.queue.eraseP (FiberAndThread.fits s.state w) } : Scheduler).setPhase w
      (.claimed e.task) := by
  have hp := scan_phase h
  simp only [scan, hp, (scanQueue_eq _ _ _).1, (scanQueue_eq _ _ _).2, he] at h
  cases h
  rfl

end Scheduler

namespace Callbacks

open Scheduler

/-! ## The books and the scheduler -/

/-- The places of a callback in the scheduler agree with the books. -/
structure Linked (s : Callbacks) : Prop where
  queue : s.sched.queue = s.books.entries.map Prod.fst
  claimed : ∀ w, (s.books.ft w).isSome = true ↔ (s.sched.workers w).phase = .claimed .cb
  inside : ∀ w, s.sched.threads ≤ w → (s.sched.workers w).phase = .scan
  ended : ∀ f, s.sched.Ended f → s.books.cb f = none
  kept : ∀ w f, (s.sched.workers w).cbFiber = some f →
    (s.sched.workers w).phase.asCb ≠ some f ∨ (s.sched.workers w).phase = .resetting f →
      s.books.cb f = none
  carried : ∀ f k, s.books.cb f = some k → f < s.sched.created ∧
    ((∃ w, s.sched.Has w f) ∨ (∃ e ∈ s.sched.queue, e.task = .fiber f) ∨ s.sched.state f = .hold)

theorem fiber_of_asCb {p : Phase} {f : Nat} (h : p.asCb = some f) : p.fiber = some f := by
  cases p with
  | resetting g => exact h
  | entering g r | running g r | leaving g r | returned g r | requeue g r | holding g r =>
    cases r with
    | cb => exact h
    | task => cases h
  | _ => cases h

variable {s : Callbacks} {t : Scheduler} {w f : Nat}

theorem Linked.advance (h : s.Linked) (hsole : s.sched.Sole) (ha : s.sched.Advances w t)
    (hw : w < s.sched.threads) {b : CallbackBooks} (hentries : b.entries = s.books.entries)
    (hft : b.ft = s.books.ft) (hcb : ∀ f k, b.cb f = some k → s.books.cb f = some k)
    (hended : ∀ f, t.Ended f → s.sched.Ended f ∨ b.cb f = none) :
    ({ s with sched := t, books := b } : Callbacks).Linked := by
  have hnone : ∀ f, s.books.cb f = none → b.cb f = none := by
    intro f hf
    cases hb : b.cb f with
    | none => rfl
    | some k =>
      rw [hcb f k hb] at hf
      cases hf
  refine ⟨?_, ?_, ?_, ?_, ?_, ?_⟩
  · simp only [ha.queue, hentries]
    exact h.queue
  · intro w'
    simp only [hft]
    by_cases hne : w' = w
    · subst hne
      rw [h.claimed w']
      exact ⟨fun hp => absurd hp ha.unclaimed.1, fun hp => absurd hp ha.unclaimed.2⟩
    · rw [ha.others w' hne]
      exact h.claimed w'
  · intro w' hw'
    simp only [ha.threads] at hw' ⊢
    have hne : w' ≠ w := fun heq => absurd hw (Nat.not_lt.mpr (heq ▸ hw'))
    rw [ha.others w' hne]
    exact h.inside w' hw'
  · intro f hf
    rcases hended f hf with hold | hnew
    · exact hnone f (h.ended f hold)
    · exact hnew
  · intro w' f hk hphase
    by_cases hne : w' = w
    · subst hne
      have hk' := ha.cbFiber f hk
      by_cases hasCb : (s.sched.workers w').phase.asCb = some f
      · rcases ha.goes f (fiber_of_asCb hasCb) with hgo | hend | hreset | hhold
        · have hasCb' := (ha.fiber f hgo.1).2 hasCb
          exact (hphase.elim (fun hne => hne hasCb') hgo.2).elim
        · exact hnone f (h.ended f hend)
        · exact hnone f (h.kept w' f hk' (Or.inr hreset))
        · have hcbNone := hhold.2 hasCb
          simp only [hcbNone] at hk
          cases hk
      · exact hnone f (h.kept w' f hk' (Or.inl hasCb))
    · simp only [ha.others w' hne] at hk hphase
      exact hnone f (h.kept w' f hk hphase)
  · intro f k hk
    have hk' := hcb f k hk
    obtain ⟨hlt, hplace⟩ := h.carried f k hk'
    refine ⟨by simpa only [ha.created] using hlt, ?_⟩
    simp only [ha.queue]
    by_cases hhas : (s.sched.workers w).phase.fiber = some f
    · rcases ha.goes f hhas with hgo | hend | hreset | hhold
      · exact Or.inl ⟨w, by simpa only [Has, ha.threads] using ⟨hw, hgo.1⟩⟩
      · rw [h.ended f hend] at hk'
        cases hk'
      · have hasCb : (s.sched.workers w).phase.asCb = some f := by rw [hreset]; rfl
        rw [h.kept w f (hsole.asCb w f hasCb) (Or.inr hreset)] at hk'
        cases hk'
      · exact Or.inr (Or.inr hhold.1)
    · rcases hplace with ⟨w', hw', hf'⟩ | hqueue | hhold
      · have hne : w' ≠ w := fun heq => hhas (heq ▸ hf')
        refine Or.inl ⟨w', ?_⟩
        simpa only [Has, ha.threads, ha.others w' hne] using ⟨hw', hf'⟩
      · exact Or.inr (Or.inl hqueue)
      · exact Or.inr (Or.inr ((ha.state f hhas).trans hhold))

theorem Linked.push (h : s.Linked) (thread : Option Nat) :
    ({ s with
      sched := s.sched.scheduleNoLock .cb thread
      books := s.books.push thread } : Callbacks).Linked := by
  refine ⟨?_, h.claimed, h.inside, h.ended, h.kept, ?_⟩
  · simp [scheduleNoLock, CallbackBooks.push, h.queue]
  · intro f k hk
    obtain ⟨hlt, hplace⟩ := h.carried f k hk
    refine ⟨hlt, hplace.imp_right (Or.imp_left ?_)⟩
    rintro ⟨e, he, htask⟩
    exact ⟨e, List.mem_append_left _ he, htask⟩

theorem Linked.pushFiber (h : s.Linked) (f : Nat) (thread : Option Nat) :
    ({ s with
      sched := s.sched.scheduleNoLock (.fiber f) thread
      books := s.books.pushFiber f thread } : Callbacks).Linked := by
  refine ⟨?_, h.claimed, h.inside, h.ended, h.kept, ?_⟩
  · simp [scheduleNoLock, CallbackBooks.pushFiber, h.queue]
  · intro g k hk
    obtain ⟨hlt, hplace⟩ := h.carried g k hk
    refine ⟨hlt, hplace.imp_right (Or.imp_left ?_)⟩
    rintro ⟨e, he, htask⟩
    exact ⟨e, List.mem_append_left _ he, htask⟩

theorem Linked.create (h : s.Linked) :
    ({ s with sched := { s.sched with created := s.sched.created + 1 } } : Callbacks).Linked :=
  ⟨h.queue, h.claimed, h.inside, h.ended, h.kept, fun f k hk =>
    ⟨Nat.lt_succ_of_lt (h.carried f k hk).1, (h.carried f k hk).2⟩⟩

/-- A worker takes an entry. -/
theorem Linked.take (h : s.Linked) {place : Nat → Place} (hkept : s.books.Kept place)
    (hw : w < s.sched.threads) (hp : (s.sched.workers w).phase = .scan)
    {l r : List (FiberAndThread × Option Nat)} {e : FiberAndThread × Option Nat}
    (hl : s.books.entries = l ++ e :: r) {b : CallbackBooks} (hentries : b.entries = l ++ r)
    (hft : b.ft = Function.update s.books.ft w e.2) (hcb : b.cb = s.books.cb) :
    ({ s with
      sched := ({ s.sched with queue := (l ++ r).map Prod.fst } : Scheduler).setPhase w
        (.claimed e.1.task)
      books := b } : Callbacks).Linked := by
  have hmem : e ∈ s.books.entries := hl ▸ List.mem_append_right l (by simp)
  set t := ({ s.sched with queue := (l ++ r).map Prod.fst } : Scheduler).setPhase w
    (.claimed e.1.task) with ht
  have hself : t.workers w = { s.sched.workers w with phase := .claimed e.1.task } :=
    Function.update_self _ _ _
  have hother : ∀ w', w' ≠ w → t.workers w' = s.sched.workers w' := fun w' hne =>
    Function.update_of_ne hne _ _
  have hqueue : t.queue = l.map Prod.fst ++ r.map Prod.fst := List.map_append
  refine ⟨?_, ?_, ?_, hcb ▸ h.ended, ?_, ?_⟩
  · exact congrArg (List.map Prod.fst) hentries.symm
  · intro w'
    simp only [hft]
    by_cases hne : w' = w
    · subst hne
      rw [hself, Function.update_self]
      cases htag : e.2 with
      | none => simpa using hkept.fibers e hmem htag
      | some k => simpa using (hkept.tagged e hmem k htag).1
    · rw [hother w' hne, Function.update_of_ne hne]
      exact h.claimed w'
  · intro w' hw'
    have hne : w' ≠ w := fun heq => absurd hw (Nat.not_lt.mpr (heq ▸ hw'))
    rw [hother w' hne]
    exact h.inside w' hw'
  · intro w' f hk hphase
    simp only [hcb]
    by_cases hne : w' = w
    · subst hne
      simp only [hself] at hk
      exact h.kept w' f hk (Or.inl (by rw [hp]; simp [Phase.asCb]))
    · simp only [hother w' hne] at hk hphase
      exact h.kept w' f hk hphase
  · intro f k hk
    simp only [hcb] at hk
    obtain ⟨hlt, hplace⟩ := h.carried f k hk
    refine ⟨hlt, ?_⟩
    rcases hplace with ⟨w', hw', hf⟩ | ⟨x, hx, htask⟩ | hhold
    · have hne : w' ≠ w := by
        intro heq
        rw [heq, hp] at hf
        cases hf
      exact Or.inl ⟨w', hw', by rwa [hother w' hne]⟩
    · rw [h.queue, hl, List.map_append, List.map_cons] at hx
      rcases List.mem_append.mp hx with hx | hx
      · refine Or.inr (Or.inl ⟨x, ?_, htask⟩)
        exact hqueue ▸ List.mem_append_left _ hx
      · rcases List.mem_cons.mp hx with rfl | hx
        · refine Or.inl ⟨w, hw, ?_⟩
          rw [hself, htask]
          rfl
        · refine Or.inr (Or.inl ⟨x, ?_, htask⟩)
          exact hqueue ▸ List.mem_append_right _ hx
    · exact Or.inr (Or.inr hhold)

/-- A worker puts its callback into the fiber that it keeps, or into a new one. -/
theorem Linked.start (h : s.Linked) (hsole : t.Sole) (hp : (s.sched.workers w).phase = .claimed .cb)
    (hw : w < s.sched.threads) (hcreated : s.sched.created ≤ t.created) (hf : f < t.created)
    (hthreads : t.threads = s.sched.threads) (hqueue : t.queue = s.sched.queue)
    (hstate : t.state = Function.update s.sched.state f .init)
    (hworkers : t.workers = Function.update s.sched.workers w
      { s.sched.workers w with phase := .entering f .cb, cbFiber := some f }) :
    ({ s with sched := t, books := s.books.start w f } : Callbacks).Linked := by
  have hself : t.workers w =
      { s.sched.workers w with phase := .entering f .cb, cbFiber := some f } := by
    rw [hworkers, Function.update_self]
  have hother : ∀ w', w' ≠ w → t.workers w' = s.sched.workers w' := fun w' hne => by
    rw [hworkers, Function.update_of_ne hne]
  have hcb : ∀ g, g ≠ f → (s.books.start w f).cb g = s.books.cb g := fun g hne =>
    Function.update_of_ne hne _ _
  refine ⟨hqueue.trans h.queue, ?_, ?_, ?_, ?_, ?_⟩
  · intro w'
    by_cases hne : w' = w
    · subst hne
      simp [CallbackBooks.start, hself]
    · simp only [CallbackBooks.start, Function.update_of_ne hne, hother w' hne]
      exact h.claimed w'
  · intro w' hw'
    simp only [hthreads] at hw'
    have hne : w' ≠ w := fun heq => absurd hw (Nat.not_lt.mpr (heq ▸ hw'))
    simp only [hother w' hne]
    exact h.inside w' hw'
  · intro g hg
    by_cases hgf : g = f
    · subst hgf
      simp [Ended, hstate] at hg
    · simp only [Ended, hstate, Function.update_of_ne hgf] at hg
      exact (hcb g hgf).trans (h.ended g hg)
  · intro w' g hk hphase
    by_cases hne : w' = w
    · subst hne
      simp only [hself, Option.some.injEq] at hk hphase
      subst hk
      simp [Phase.asCb] at hphase
    · have hgf : g ≠ f := by
        intro heq
        subst heq
        exact hne (hsole.keptUnique w' w g hk (by rw [hself]))
      simp only [hother w' hne] at hk hphase
      exact (hcb g hgf).trans (h.kept w' g hk hphase)
  · intro g k hk
    by_cases hgf : g = f
    · subst hgf
      exact ⟨hf, Or.inl ⟨w, hthreads ▸ hw, by rw [hself]; rfl⟩⟩
    · obtain ⟨hlt, hplace⟩ := h.carried g k ((hcb g hgf).symm.trans hk)
      refine ⟨Nat.lt_of_lt_of_le hlt hcreated, ?_⟩
      rcases hplace with ⟨w', hw', hg⟩ | hentry | hhold
      · have hne : w' ≠ w := by
          intro heq
          rw [heq, hp] at hg
          cases hg
        exact Or.inl ⟨w', hthreads ▸ hw', by rwa [hother w' hne]⟩
      · exact Or.inr (Or.inl (hqueue ▸ hentry))
      · refine Or.inr (Or.inr ?_)
        simpa only [hstate, Function.update_of_ne hgf] using hhold

/-- A worker schedules its fiber again. -/
theorem requeued (h : s.Linked) (hsole : s.sched.Sole) (hw : w < s.sched.threads) {r : Role}
    (hp : (s.sched.workers w).phase = .requeue f r) {x : Worker} (hx : x.phase = .scan)
    (hkeep : ∀ g, x.cbFiber = some g → (s.sched.workers w).cbFiber = some g)
    (hgive : r = .cb → x.cbFiber = none) :
    (({ s.sched with workers := Function.update s.sched.workers w x } : Scheduler).scheduleNoLock
        (.fiber f) none).Sole ∧
      ({ s with
        sched := ({ s.sched with workers := Function.update s.sched.workers w x }
          : Scheduler).scheduleNoLock (.fiber f) none
        books := s.books.pushFiber f none } : Callbacks).Linked := by
  have hself : Function.update s.sched.workers w x w = x := Function.update_self _ _ _
  have hother : ∀ w', w' ≠ w → Function.update s.sched.workers w x w' = s.sched.workers w' :=
    fun w' hne => Function.update_of_ne hne _ _
  have hhas : s.sched.Has w f := ⟨hw, by rw [hp]; rfl⟩
  have hgive' : ∀ g, x.cbFiber = some g → (s.sched.workers w).phase.asCb ≠ some g := by
    intro g hg hasCb
    cases r with
    | task =>
      rw [hp] at hasCb
      cases hasCb
    | cb =>
      rw [hgive rfl] at hg
      cases hg
  have hmid :
      ({ s.sched with workers := Function.update s.sched.workers w x } : Scheduler).Sole := by
    refine hsole.move (w := w) rfl rfl rfl hother ?_ ?_ ?_
    · simpa only [hself] using hkeep
    · simp [hx, Phase.fiber]
    · simp [hx, Phase.asCb]
  refine ⟨hmid.enqueue ⟨hsole.unqueued w f hhas, ?_⟩ (hsole.hasCreated w f hhas) none, ?_⟩
  · intro w'
    by_cases hne : w' = w
    · subst hne
      refine ⟨?_, ?_⟩
      · rintro ⟨-, hf⟩
        simp [hx, Phase.fiber] at hf
      · simp only [hself]
        intro hg
        exact hgive' f hg (hsole.keptHas w' w' f (hkeep f hg) hhas)
    · refine ⟨?_, ?_⟩
      · rintro ⟨hw', hf⟩
        simp only [hother w' hne] at hf
        exact hne (hsole.unique w' w f ⟨hw', hf⟩ hhas)
      · simp only [hother w' hne]
        intro hg
        have hasCb := hsole.keptHas w' w f hg hhas
        exact hne (hsole.keptUnique w' w f hg (hsole.asCb w f hasCb))
  · refine ⟨?_, ?_, ?_, h.ended, ?_, ?_⟩
    · simp [scheduleNoLock, CallbackBooks.pushFiber, h.queue]
    · intro w'
      by_cases hne : w' = w
      · subst hne
        have hclaimed := h.claimed w'
        rw [hp] at hclaimed
        simpa [CallbackBooks.pushFiber, scheduleNoLock, hself, hx] using hclaimed
      · simpa only [scheduleNoLock, CallbackBooks.pushFiber, hother w' hne] using h.claimed w'
    · intro w' hw'
      have hne : w' ≠ w := fun heq => absurd hw (Nat.not_lt.mpr (heq ▸ hw'))
      simpa only [scheduleNoLock, hother w' hne] using h.inside w' hw'
    · intro w' g hk hphase
      by_cases hne : w' = w
      · subst hne
        simp only [scheduleNoLock, hself] at hk
        exact h.kept w' g (hkeep g hk) (Or.inl (hgive' g hk))
      · simp only [scheduleNoLock, hother w' hne] at hk hphase
        exact h.kept w' g hk hphase
    · intro g k hk
      obtain ⟨hlt, hplace⟩ := h.carried g k hk
      refine ⟨hlt, ?_⟩
      rcases hplace with ⟨w', hw', hg⟩ | ⟨e, he, htask⟩ | hhold
      · by_cases hne : w' = w
        · rw [hne, hp] at hg
          obtain rfl := Option.some.inj hg
          exact Or.inr (Or.inl ⟨⟨.fiber f, none⟩, by simp [scheduleNoLock], rfl⟩)
        · exact Or.inl ⟨w', hw', by simpa only [scheduleNoLock, hother w' hne] using hg⟩
      · exact Or.inr (Or.inl ⟨e, List.mem_append_left _ he, htask⟩)
      · exact Or.inr (Or.inr hhold)

/-! ## Runs -/

/-- What every run keeps. -/
structure Good (s : Callbacks) : Prop where
  sole : s.sched.Sole
  linked : s.Linked
  kept : ∃ place, s.books.Kept place

theorem Good.schedule (h : s.Good) (cb : Bool) (thread : Option Nat) :
    (s.schedule cb thread).Good := by
  rw [Callbacks.schedule]
  split
  · obtain ⟨place, hkept⟩ := h.kept
    exact ⟨h.sole.enqueueCb thread, h.linked.push thread, _, hkept.push thread⟩
  · exact h

theorem Good.ranges (h : s.Good) (ranges : Nat → List Bool) : ({ s with ranges := ranges }).Good :=
  ⟨h.sole, ⟨h.linked.queue, h.linked.claimed, h.linked.inside, h.linked.ended, h.linked.kept,
    h.linked.carried⟩, h.kept⟩

theorem Good.scheduleRange (h : s.Good) (caller : Nat) : (s.scheduleRange caller).Good := by
  have hall : ∀ range : List Bool, ∀ u : Callbacks, u.Good →
      (range.foldl (fun u cb => u.schedule cb none) u).Good := by
    intro range
    induction range with
    | nil => exact fun u hu => hu
    | cons cb range ih => exact fun u hu => ih _ (hu.schedule cb none)
  exact (hall _ s h).ranges _

theorem Good.advance (h : s.Good) (hw : w < s.sched.threads) (ha : s.sched.Advances w t)
    (hended : ∀ f, t.Ended f → s.sched.Ended f) : ({ s with sched := t }).Good :=
  ⟨h.sole.advance ha,
    h.linked.advance h.sole ha hw rfl rfl (fun _ _ => id) fun f hf => Or.inl (hended f hf),
    h.kept⟩

/-- The guard on a run: another fiber than those of the workers is scheduled only while it is in no
    place.  Nothing is asked of the other steps. -/
def resumes (s : Callbacks) : CallbackAction → Prop
  | .run (.schedule (.fiber f) _) => s.sched.Suspended f
  | _ => True

theorem Good.scan (h : s.Good) (hw : w < s.sched.threads) (hs : s.sched.scan w = some t) :
    ({ s with sched := t, books := s.follow t (.scan w) }).Good := by
  obtain ⟨place, hkept⟩ := h.kept
  have hp := scan_phase hs
  have hfits : CallbackBooks.Fits (FiberAndThread.fits s.sched.state w) w :=
    ⟨fun e he => by simp_all [FiberAndThread.fits],
      fun e hcb hmay => by simp [FiberAndThread.fits, hcb, hmay, Job.isExec]⟩
  have hft : s.books.ft w = none := by
    have hclaimed := h.linked.claimed w
    rw [hp] at hclaimed
    simpa using hclaimed
  have hfind : s.sched.queue.find? (FiberAndThread.fits s.sched.state w) =
      (s.books.entries.find? fun e => e.1.fits s.sched.state w).map Prod.fst := by
    rw [h.linked.queue, List.find?_map]
    rfl
  cases he : s.books.entries.find? fun e => e.1.fits s.sched.state w with
  | none =>
    obtain ⟨ha, hended⟩ := scan_none hs (by rw [hfind, he]; rfl)
    have hsame : s.follow t (.scan w) = s.books := by
      rw [follow, CallbackBooks.take, he]
    rw [hsame]
    exact h.advance hw ha hended
  | some e =>
    obtain ⟨l, r, hl, -, -, htake⟩ := CallbackBooks.take_spec (w := w) he
    have hnext := scan_some hs (by rw [hfind, he]; rfl)
    have herase : s.books.entries.eraseP (fun e => e.1.fits s.sched.state w) = l ++ r := by
      have hentries := congrArg CallbackBooks.entries htake
      rwa [CallbackBooks.take, he] at hentries
    have hqueue : s.sched.queue.eraseP (FiberAndThread.fits s.sched.state w) =
        (l ++ r).map Prod.fst := by
      rw [h.linked.queue, List.eraseP_map, ← herase]
      rfl
    rw [hqueue] at hnext
    subst hnext
    refine ⟨?_, ?_, hkept.take hfits hft⟩
    · rw [List.map_append]
      refine h.sole.claim (by rw [hp]; rfl) ?_
      rw [h.linked.queue, hl, List.map_append, List.map_cons]
    · refine h.linked.take hkept hw hp hl ?_ ?_ ?_
      all_goals rw [follow, htake]

theorem Good.prepare (h : s.Good) (hw : w < s.sched.threads) (hs : s.sched.prepare w = some t) :
    ({ s with sched := t, books := s.follow t (.prepare w) }).Good := by
  obtain ⟨place, hkept⟩ := h.kept
  cases hp : (s.sched.workers w).phase with
  | claimed e =>
    cases e with
    | fiber f =>
      obtain ⟨ha, hended⟩ := prepare_advances hp hs
      have hsame : s.follow t (.prepare w) = s.books := by
        rw [follow]
        split
        · rename_i g hg
          have hasCb := (ha.asCb g (by rw [hg]; rfl)).1
          rw [hp] at hasCb
          cases hasCb
        · rfl
      rw [hsame]
      exact h.advance hw ha hended
    | cb =>
      obtain ⟨f, hf, hthreads, hqueue, hstate, hworkers⟩ := prepare_cb hp hs
      have hcreated : s.sched.created ≤ t.created := by omega
      have hself : t.workers w =
          { s.sched.workers w with phase := .entering f .cb, cbFiber := some f } := by
        rw [hworkers, Function.update_self]
      have hothers : ∀ w', w' ≠ w → t.workers w' = s.sched.workers w' := fun w' hne => by
        rw [hworkers, Function.update_of_ne hne]
      have hlt : f < t.created := by
        rcases hf with ⟨hcb, hsame⟩ | ⟨rfl, hnew⟩
        · rw [hsame]
          exact h.sole.keptCreated w f hcb
        · omega
      have hfollow : s.follow t (.prepare w) = s.books.start w f := by
        rw [follow, hself]
      have hnone : s.books.cb f = none := by
        rcases hf with ⟨hcb, -⟩ | ⟨rfl, -⟩
        · exact h.linked.kept w f hcb (Or.inl (by rw [hp]; simp [Phase.asCb]))
        · cases hk : s.books.cb s.sched.created with
          | none => rfl
          | some k => exact absurd (h.linked.carried _ k hk).1 (Nat.lt_irrefl _)
      have hsole : t.Sole := by
        refine h.sole.enter (f := f) hthreads hcreated hqueue hothers hself (by rw [hp]; rfl) hlt ?_
        exact hf.imp And.left fun hnew => Nat.le_of_eq hnew.1
      obtain ⟨k, hk⟩ := Option.isSome_iff_exists.mp ((h.linked.claimed w).mpr hp)
      rw [hfollow]
      exact ⟨hsole, h.linked.start hsole hp hw hcreated hlt hthreads hqueue hstate hworkers, _,
        hkept.start hk hnone⟩
  | _ =>
    rw [Scheduler.prepare, hp] at hs
    cases hs

theorem Good.leave (h : s.Good) (hw : w < s.sched.threads) {v : FiberState}
    (hs : s.sched.leave w v = some t) :
    ({ s with
      sched := t
      books := match (s.sched.workers w).phase with
        | .running f _ => s.books.finish f
        | _ => s.books }).Good := by
  obtain ⟨place, hkept⟩ := h.kept
  obtain ⟨ha, hended⟩ := leave_advances hs
  cases hp : (s.sched.workers w).phase with
  | running f r =>
    refine ⟨h.sole.advance ha, h.linked.advance h.sole ha hw rfl rfl ?_ ?_, hkept.finish f⟩
    · intro g k hk
      by_cases hgf : g = f
      · simp [CallbackBooks.finish, hgf] at hk
      · simpa [CallbackBooks.finish, Function.update_of_ne hgf] using hk
    · intro g hg
      rcases hended g hg with hold | ⟨r', hr⟩
      · exact Or.inl hold
      · rw [hp] at hr
        cases hr
        exact Or.inr (by simp [CallbackBooks.finish])
  | _ =>
    refine ⟨h.sole.advance ha, h.linked.advance h.sole ha hw rfl rfl (fun _ _ => id) ?_,
      place, hkept⟩
    intro g hg
    rcases hended g hg with hold | ⟨r', hr⟩
    · exact Or.inl hold
    · rw [hp] at hr
      cases hr

theorem Good.finish (h : s.Good) (hw : w < s.sched.threads) (hs : s.sched.finish w = some t) :
    ({ s with sched := t, books := s.follow t (.finish w) }).Good := by
  obtain ⟨place, hkept⟩ := h.kept
  cases hp : (s.sched.workers w).phase with
  | requeue f r =>
    obtain ⟨x, hx, hkeep, hgive, rfl⟩ := finish_requeue hp hs
    have hfollow : s.follow (({ s.sched with workers := Function.update s.sched.workers w x }
        : Scheduler).scheduleNoLock (.fiber f) none) (.finish w) = s.books.pushFiber f none := by
      rw [follow, hp]
    rw [hfollow]
    obtain ⟨hsole, hlinked⟩ := requeued h.linked h.sole hw hp hx hkeep hgive
    exact ⟨hsole, hlinked, place, hkept.pushFiber f none⟩
  | _ =>
    obtain ⟨ha, hended⟩ := finish_advances (by rw [hp]; simp) hs
    have hsame : s.follow t (.finish w) = s.books := by
      rw [follow, hp]
    rw [hsame]
    exact h.advance hw ha hended

theorem Good.init {threads : Nat} : ({ sched := { threads := threads } } : Callbacks).Good := by
  refine ⟨?_, ?_, fun _ => .queue, ?_⟩
  · constructor <;> simp [Has, Phase.fiber, Phase.asCb]
  · constructor <;> simp [Ended]
  · constructor <;> simp [CallbackBooks.taken, CallbackBooks.waiting]
    intro k p
    cases p <;> simp [CallbackBooks.At, CallbackBooks.waiting]

theorem Good.run (h : s.Good) {a : SchedAction} (hg : s.resumes (.run a))
    (hs : s.sched.step a = some t) (hcb : ∀ thread, a ≠ .schedule .cb thread) :
    ({ s with sched := t, books := s.follow t a }).Good := by
  unfold Scheduler.step at hs
  split at hs
  · cases hs
  rename_i hle
  have hw : ∀ w, a.worker = some w → w < s.sched.threads := by
    intro w hw
    simpa [hw] using hle
  have hadv : ∀ {w}, w < s.sched.threads → s.follow t a = s.books →
      (s.sched.Advances w t ∧ ∀ f, t.Ended f → s.sched.Ended f) →
      ({ s with sched := t, books := s.follow t a }).Good := by
    intro w hw hsame ha
    rw [hsame]
    exact h.advance hw ha.1 ha.2
  obtain ⟨place, hkept⟩ := h.kept
  cases a with
  | create =>
    cases hs
    exact ⟨h.sole.create, h.linked.create, place, hkept⟩
  | schedule job thread =>
    cases job with
    | fiber f =>
      simp only [Job.known, decide_eq_true_eq] at hs
      split at hs
      · rename_i hf
        cases hs
        exact ⟨h.sole.enqueue hg hf thread, h.linked.pushFiber f thread, place,
          hkept.pushFiber f thread⟩
      · cases hs
    | cb => exact absurd rfl (hcb thread)
  | scan w => exact h.scan (hw w rfl) hs
  | prepare w => exact h.prepare (hw w rfl) hs
  | finish w => exact h.finish (hw w rfl) hs
  | swapIn w => exact hadv (hw w rfl) rfl (swapIn_advances hs)
  | yieldToReady w => exact hadv (hw w rfl) rfl (yieldToReady_advances hs)
  | yieldToHold w => exact hadv (hw w rfl) rfl (yieldToHold_advances hs)
  | terminate w => exact h.leave (hw w rfl) hs
  | throw w => exact h.leave (hw w rfl) hs
  | swapOut w => exact hadv (hw w rfl) rfl (swapOut_advances hs)
  | settle w => exact hadv (hw w rfl) rfl (settle_advances hs)

theorem Good.step {u : Callbacks} (h : s.Good) {a : CallbackAction} (hg : s.resumes a)
    (hs : s.step a = some u) : u.Good := by
  cases a with
  | schedule cb thread =>
    cases hs
    exact h.schedule cb thread
  | fill caller range =>
    cases hs
    exact h.ranges _
  | scheduleRange caller =>
    cases hs
    exact h.scheduleRange caller
  | run a =>
    unfold Callbacks.step at hs
    split at hs
    case h_4 => cases hs
    case h_5 a' hne heq =>
      cases heq
      obtain ⟨t, ht, rfl⟩ := Option.map_eq_some_iff.mp hs
      exact h.run hg ht fun thread heq => hne thread (heq ▸ rfl)
    all_goals rename_i heq; cases heq

theorem good_of_reach (h : callbackMachine.Reach resumes s) : s.Good :=
  h.invariant (by rintro _ ⟨threads, rfl⟩; exact Good.init) fun _ _ _ hs hg hstep =>
    hs.step hg hstep

/-- The callback is in this place of the scheduler: in an entry of the queue, in `ft` of a worker
    that has taken it, in a fiber that a worker has, that is in the queue or that is on hold, or
    its fiber has ended. -/
def At (s : Callbacks) (k : Nat) : Place → Prop
  | .queue => ∃ thread, (⟨.cb, thread⟩, some k) ∈ s.books.entries
  | .worker w => w < s.sched.threads ∧ (s.sched.workers w).phase = .claimed .cb ∧
      s.books.ft w = some k
  | .fiber f => s.books.cb f = some k ∧ f < s.sched.created ∧
      ((∃ w, s.sched.Has w f) ∨ (∃ e ∈ s.sched.queue, e.task = .fiber f) ∨
        s.sched.state f = .hold)
  | .finished => k ∈ s.books.finished

/-- Every callback that has been scheduled is in exactly one place, is taken from the queue by
    exactly one worker, which its pin allows, and pin by pin the callbacks leave the queue in the
    order in which they were scheduled. -/
structure ExactlyOnce (s : Callbacks) : Prop where
  queue : s.sched.queue = s.books.entries.map Prod.fst
  place : ∀ k < s.books.pins.length, ∃! p, s.At k p
  waitingOnce : s.books.waiting.Nodup
  started : ∀ k < s.books.pins.length, ¬s.At k .queue ↔ ∃! w, (k, w) ∈ s.books.dequeued
  startedOnce : s.books.taken.Nodup
  carriedOnce : ∀ f f' k, s.books.cb f = some k → s.books.cb f' = some k → f = f'
  oneWorker : ∀ w w' f, s.sched.Has w f → s.sched.Has w' f → w = w'
  finishedOnce : s.books.finished.Nodup
  pinned : ∀ d ∈ s.books.dequeued, s.books.pins[d.1]? = some none ∨
    s.books.pins[d.1]? = some (some d.2)
  order : ∀ pin, s.books.taken.filter (s.books.pinned pin) ++
    s.books.waiting.filter (s.books.pinned pin) =
      (List.range s.books.pins.length).filter (s.books.pinned pin)

theorem Good.at_iff (h : s.Good) {place : Nat → Place} (hkept : s.books.Kept place) (k : Nat)
    (p : Place) : s.At k p ↔ s.books.At k p := by
  cases p with
  | queue =>
    simp only [At, CallbackBooks.At, CallbackBooks.waiting, List.mem_filterMap]
    constructor
    · rintro ⟨thread, he⟩
      exact ⟨_, he, rfl⟩
    · rintro ⟨⟨⟨task, thread⟩, tag⟩, he, htag⟩
      obtain rfl := (hkept.tagged _ he k htag).1
      obtain rfl : tag = some k := htag
      exact ⟨thread, he⟩
  | worker w =>
    refine ⟨fun hp => hp.2.2, fun hk => ?_⟩
    have hphase := (h.linked.claimed w).mp (by rw [show s.books.ft w = some k from hk]; rfl)
    refine ⟨?_, hphase, hk⟩
    by_contra hge
    rw [h.linked.inside w (Nat.le_of_not_lt hge)] at hphase
    cases hphase
  | fiber f => exact ⟨fun hp => hp.1, fun hk => ⟨hk, h.linked.carried f k hk⟩⟩
  | finished => exact Iff.rfl

theorem exactlyOnce (h : callbackMachine.Reach resumes s) : s.ExactlyOnce := by
  have hgood := good_of_reach h
  obtain ⟨place, hkept⟩ := hgood.kept
  have hnodup := hkept.all.nodup_iff.mpr List.nodup_range
  obtain ⟨htaken, hwaiting, hdisjoint⟩ := List.nodup_append.mp hnodup
  refine ⟨hgood.linked.queue, ?_, hwaiting, ?_, htaken, ?_, hgood.sole.unique,
    hkept.finishedOnce, hkept.respected, hkept.order⟩
  · intro k hk
    simp only [hgood.at_iff hkept, hkept.located]
    exact ⟨place k, ⟨hk, rfl⟩, fun p hp => hp.2.symm⟩
  · intro k hk
    rw [hgood.at_iff hkept]
    constructor
    · intro hnot
      have hmem : k ∈ s.books.taken ++ s.books.waiting :=
        hkept.all.mem_iff.mpr (List.mem_range.mpr hk)
      obtain ⟨⟨j, w⟩, hd, rfl⟩ := List.mem_map.mp ((List.mem_append.mp hmem).resolve_right hnot)
      refine ⟨w, hd, fun w' hd' => ?_⟩
      exact congrArg Prod.snd (List.inj_on_of_nodup_map htaken hd' hd rfl)
    · rintro ⟨w, hd, -⟩ hwait
      exact hdisjoint k (List.mem_map_of_mem (f := Prod.fst) hd) k hwait rfl
  · intro f f' k hf hf'
    exact Place.fiber.inj (hkept.unique (p := .fiber f) (q := .fiber f') hf hf')

/-- The callback 0 comes from a range, is carried by a fiber and goes back to the queue; the
    worker 1 takes the callback that is pinned to it. -/
def yieldedAndPinned : List CallbackAction :=
  [.fill 0 [true, false], .scheduleRange 0, .schedule true (some 1), .run (.scan 0),
    .run (.prepare 0), .run (.swapIn 0), .run (.yieldToReady 0), .run (.swapOut 0),
    .run (.settle 0), .run (.finish 0), .run (.scan 1)]

theorem exactlyOnce_yieldedAndPinned :
    ∃ s, callbackMachine.run { sched := { threads := 2 } } yieldedAndPinned = some s ∧
      s.books.dequeued = [(0, 0), (1, 1)] ∧ s.books.cb 0 = some 0 ∧ s.ExactlyOnce := by
  refine ⟨_, rfl, rfl, rfl, exactlyOnce (.of_run yieldedAndPinned (.init ⟨2, rfl⟩) ?_ rfl)⟩
  apply Machine.meets_of_forall
  intro a ha s
  fin_cases ha <;> trivial

end Callbacks

end CppServerFramework.Async

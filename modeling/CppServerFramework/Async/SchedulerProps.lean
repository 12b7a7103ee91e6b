import CppServerFramework.Async.Scheduler

/-!
# No fiber runs on two threads

A fiber that two workers can take at once is swapped in twice: the state is tested when an
entry is taken from the queue and again before the switch, but set only in the switch.  The
invariant says that the pending resumptions of a fiber (its entries in the queue, a worker
that has taken one, and a worker that will schedule it again because it is `READY`) can all
be executed by one and the same worker only.
-/

namespace CppServerFramework.Async

/-! ## Who has a fiber -/

/-- The fiber a worker has taken or is running. -/
def Phase.fiber : Phase → Option Nat
  | .claimed (.fiber f) => some f
  | .entering f _ | .running f _ | .leaving f _ | .returned f _ | .requeue f _ | .holding f _
  | .resetting f => some f
  | _ => none

/-- The worker has taken an entry and not yet tested it. -/
def Phase.claims : Phase → Bool
  | .claimed _ => true
  | _ => false

/-- The worker is at its idle fiber. -/
def Phase.atIdle : Phase → Bool
  | .enteringIdle | .idling | .returnedIdle => true
  | _ => false

/-- The fiber a worker is running as its `cb_fiber`. -/
def Phase.asCb : Phase → Option Nat
  | .entering f .cb | .running f .cb | .leaving f .cb | .returned f .cb | .requeue f .cb
  | .holding f .cb | .resetting f => some f
  | _ => none

/-- The body of the fiber is active on the worker: it has been switched to and has not
    switched back. -/
def Phase.active (f : Nat) : Phase → Prop
  | .running g _ | .leaving g _ => g = f
  | _ => False

/-- The threads that may execute the resumption a worker stands for: the worker itself as long
    as it has not swapped the fiber in, anyone once it is to be scheduled again. -/
def Phase.token (w : Nat) : Phase → Option Nat
  | .claimed _ | .entering _ _ => some w
  | _ => none

/-- What the phase of a worker says about the state of its fiber. -/
def Phase.Agrees (state : Nat → FiberState) : Phase → Prop
  | .claimed (.fiber f) => state f ≠ .exec
  | .entering f _ => state f ≠ .exec ∧ state f ≠ .term ∧ state f ≠ .except
  | .running f _ => state f = .exec
  | .leaving f _ => state f = .ready ∨ state f = .term ∨ state f = .except
  | .returned f _ =>
    state f = .exec ∨ state f = .ready ∨ state f = .term ∨ state f = .except
  | .requeue f _ => state f = .ready
  | .holding f _ => state f = .exec
  | .resetting f => state f = .term ∨ state f = .except
  | _ => True

def FiberState.live (v : FiberState) : Prop := v ≠ .term ∧ v ≠ .except

namespace Scheduler

def CanRun (s : Scheduler) (thread : Option Nat) (w : Nat) : Prop :=
  w < s.threads ∧ (thread = none ∨ thread = some w)

/-- Two resumptions can be executed by one and the same worker only. -/
def Same (s : Scheduler) (p q : Option Nat) : Prop :=
  ∀ w w', s.CanRun p w → s.CanRun q w' → w = w'

def Has (s : Scheduler) (w f : Nat) : Prop :=
  w < s.threads ∧ (s.workers w).phase.fiber = some f

/-- The next `swapIn` of any worker finds its fiber neither running nor ended, and no fiber is
    active on two workers. -/
structure Safe (s : Scheduler) : Prop where
  swapIn : ∀ w f r, w < s.threads → (s.workers w).phase = .entering f r →
    s.state f ≠ .exec ∧ s.state f ≠ .term ∧ s.state f ≠ .except ∧
    ∀ w' < s.threads, ¬ (s.workers w').phase.active f
  swapInIdle : ∀ w < s.threads, (s.workers w).phase = .enteringIdle →
    (s.workers w).idle ≠ .exec ∧ (s.workers w).idle ≠ .term ∧ (s.workers w).idle ≠ .except
  active : ∀ w w' f, w < s.threads → w' < s.threads → (s.workers w).phase.active f →
    (s.workers w').phase.active f → w = w'

/-- No pending resumption of `f` can be executed by another worker than one that may execute a
    resumption on `thread`. -/
def MaySchedule (s : Scheduler) (f : Nat) (thread : Option Nat) : Prop :=
  (∀ e ∈ s.queue, e.task = .fiber f → s.Same e.thread thread) ∧
  (s.state f ≠ .exec → ∀ w, s.Has w f → s.Same ((s.workers w).phase.token w) thread)

end Scheduler

/-- The condition on a step: a fiber that has not ended is scheduled only if no pending
    resumption of it can be executed by another worker, and not while a worker keeps it for
    its next callback; a fiber that has been scheduled while it runs does not become `READY`
    if another worker may take that entry, and does not end if it runs a callback; an idle
    fiber does not end with an exception. -/
def SchedGuard (s : Scheduler) : SchedAction → Prop
  | .schedule (.fiber f) thread => ((s.state f).live → s.MaySchedule f thread) ∧
      ∀ w < s.threads, (s.workers w).cbFiber = some f → s.state f = .exec
  | .yieldToReady w => ∀ f r, (s.workers w).phase = .running f r →
      ∀ e ∈ s.queue, e.task = .fiber f → s.Same e.thread none
  | .terminate w => ∀ f, (s.workers w).phase = .running f .cb →
      ∀ e ∈ s.queue, e.task ≠ .fiber f
  | .throw w => (∀ f, (s.workers w).phase = .running f .cb →
      ∀ e ∈ s.queue, e.task ≠ .fiber f) ∧ (s.workers w).phase ≠ .idling
  | _ => True

theorem Phase.agrees_congr {state state' : Nat → FiberState} {p : Phase}
    (h : ∀ f, p.fiber = some f → state' f = state f) (hp : p.Agrees state) : p.Agrees state' := by
  cases p with
  | claimed t =>
    cases t with
    | fiber f => rw [Phase.Agrees, h f rfl]; exact hp
    | cb => trivial
  | entering f | running f | leaving f | returned f | requeue f | holding f | resetting f =>
    simp only [Phase.Agrees, h f rfl]
    exact hp
  | _ => trivial

namespace Scheduler

/-- What guarded runs keep. -/
structure Inv (s : Scheduler) : Prop where
  unique : ∀ w w' f, s.Has w f → s.Has w' f → ((s.state f).live ∨
    (s.workers w).phase.claims = false ∧ (s.workers w').phase.claims = false) → w = w'
  agrees : ∀ w < s.threads, (s.workers w).phase.Agrees s.state
  apart : s.queue.Pairwise fun e e' => ∀ f, e.task = .fiber f → e'.task = .fiber f →
    (s.state f).live → s.Same e.thread e'.thread
  token : ∀ w f e, s.Has w f → (s.state f).live → s.state f ≠ .exec → e ∈ s.queue →
    e.task = .fiber f → s.Same e.thread ((s.workers w).phase.token w)
  asCb : ∀ w f, (s.workers w).phase.asCb = some f → (s.workers w).cbFiber = some f
  keptUnique : ∀ w w' f, (s.workers w).cbFiber = some f → (s.workers w').cbFiber = some f → w = w'
  keptHas : ∀ w w' f, (s.workers w).cbFiber = some f → s.Has w' f →
    w' = w ∧ (s.workers w).phase.asCb = some f
  keptQueue : ∀ w f e, (s.workers w).cbFiber = some f → e ∈ s.queue → e.task = .fiber f →
    s.state f = .exec ∨ s.state f = .ready ∧ (s.workers w).phase.fiber = some f
  idle : ∀ w, ((s.workers w).phase = .idling → (s.workers w).idle = .exec) ∧
    ((s.workers w).phase ≠ .idling → (s.workers w).phase ≠ .returnedIdle →
      (s.workers w).idle ≠ .exec) ∧
    (s.workers w).idle ≠ .except ∧
    ((s.workers w).phase = .enteringIdle → (s.workers w).idle ≠ .term)
  hasCreated : ∀ w f, s.Has w f → f < s.created
  queueCreated : ∀ e ∈ s.queue, ∀ f, e.task = .fiber f → f < s.created
  keptCreated : ∀ w f, (s.workers w).cbFiber = some f → f < s.created
  outside : ∀ w, s.threads ≤ w → (s.workers w).cbFiber = none

theorem Inv.lt_of_kept {s : Scheduler} (h : s.Inv) {w f : Nat}
    (hk : (s.workers w).cbFiber = some f) : w < s.threads := by
  by_contra hge
  rw [h.outside w (Nat.le_of_not_lt hge)] at hk
  cases hk

/-! ## Resumptions -/

theorem Same.symm {s : Scheduler} {p q : Option Nat} (h : s.Same p q) : s.Same q p :=
  fun w w' hw hw' => (h w' w hw' hw).symm

theorem canRun_some {s : Scheduler} {w w' : Nat} (h : s.CanRun (some w) w') : w = w' := by
  rcases h.2 with h | h
  · cases h
  · exact Option.some.inj h

/-- What one worker has taken can be executed by no more workers than before. -/
theorem Same.take {s : Scheduler} {p q : Option Nat} {w : Nat} (h : s.Same p q)
    (hw : s.CanRun p w) : s.Same (some w) q := by
  intro u v hu hv
  rw [← canRun_some hu]
  exact h w v hw hv

theorem Has.canRun_token {s : Scheduler} {w f : Nat} (h : s.Has w f) :
    s.CanRun ((s.workers w).phase.token w) w := by
  refine ⟨h.1, ?_⟩
  cases (s.workers w).phase <;> simp [Phase.token]


/-! ## One worker moves on -/

/-- A worker may turn into `x`, and the fiber `f` into state `v`, without breaking the
    invariant. -/
structure Move (s : Scheduler) (w : Nat) (x : Worker) (f : Nat) (v : FiberState) : Prop where
  worker : w < s.threads
  fiber : ∀ g, x.phase.fiber = some g → g = f ∧ f < s.created
  agrees : x.phase.Agrees (Function.update s.state f v)
  sole : ∀ w', w' ≠ w → s.Has w' f → ¬ (s.state f).live ∧ v = s.state f ∧
    (x.phase.fiber = some f → x.phase.claims = true ∨ (s.workers w').phase.claims = true)
  others : ∀ w', w' ≠ w → (s.workers w').cbFiber = some f →
    x.phase.fiber ≠ some f ∧ v = s.state f
  revive : v.live → (s.state f).live ∨ ∀ e ∈ s.queue, e.task ≠ .fiber f
  token : x.phase.fiber = some f → v.live → v ≠ .exec → ∀ e ∈ s.queue, e.task = .fiber f →
    s.Same e.thread (x.phase.token w)
  asCb : ∀ g, x.phase.asCb = some g → x.cbFiber = some g
  kept : ∀ g, x.cbFiber = some g → (x.phase.fiber = some g → x.phase.asCb = some g) ∧
    (∀ w', w' ≠ w → (s.workers w').cbFiber ≠ some g ∧ ¬ s.Has w' g) ∧
    (∀ e ∈ s.queue, e.task = .fiber g → Function.update s.state f v g = .exec ∨
      Function.update s.state f v g = .ready ∧ x.phase.fiber = some g) ∧ g < s.created
  idle : (x.phase = .idling → x.idle = .exec) ∧
    (x.phase ≠ .idling → x.phase ≠ .returnedIdle → x.idle ≠ .exec) ∧ x.idle ≠ .except ∧
    (x.phase = .enteringIdle → x.idle ≠ .term)

theorem Inv.move {s : Scheduler} (h : s.Inv) {w : Nat} {x : Worker} {f : Nat} {v : FiberState}
    (hm : s.Move w x f v) : ((s.setState f v).setWorker w x).Inv := by
  have hself : ((s.setState f v).setWorker w x).workers w = x := Function.update_self _ _ _
  have hother : ∀ w', w' ≠ w → ((s.setState f v).setWorker w x).workers w' = s.workers w' :=
    fun w' hne => Function.update_of_ne hne _ _
  have hst : ((s.setState f v).setWorker w x).state f = v := Function.update_self _ _ _
  have hsame : ∀ g, g ≠ f → ((s.setState f v).setWorker w x).state g = s.state g :=
    fun g hne => Function.update_of_ne hne _ _
  have hhas : ∀ w' g, w' ≠ w → ((s.setState f v).setWorker w x).Has w' g → s.Has w' g := by
    rintro w' g hne ⟨hw', hg⟩
    exact ⟨hw', by rwa [hother w' hne] at hg⟩
  have hmine : ∀ g, ((s.setState f v).setWorker w x).Has w g → g = f ∧ x.phase.fiber = some f := by
    rintro g ⟨-, hg⟩
    rw [hself] at hg
    obtain ⟨rfl, -⟩ := hm.fiber g hg
    exact ⟨rfl, hg⟩
  -- a fiber of another worker keeps its state
  have hkeep : ∀ w' g, w' ≠ w → s.Has w' g →
      ((s.setState f v).setWorker w x).state g = s.state g := by
    intro w' g hne hg
    by_cases hgf : g = f
    · subst hgf
      rw [hst, (hm.sole w' hne hg).2.1]
    · exact hsame g hgf
  refine ⟨?_, ?_, ?_, ?_, ?_, ?_, ?_, ?_, ?_, ?_, h.queueCreated, ?_, ?_⟩
  · -- unique
    have hcross : ∀ w' g, w' ≠ w → ((s.setState f v).setWorker w x).Has w g →
        ((s.setState f v).setWorker w x).Has w' g →
        ((((s.setState f v).setWorker w x).state g).live ∨
          x.phase.claims = false ∧ (s.workers w').phase.claims = false) → False := by
      intro w' g hne hw hw' hlive
      obtain ⟨rfl, hfiber⟩ := hmine g hw
      obtain ⟨hdead, hsame', hclaims⟩ := hm.sole w' hne (hhas w' g hne hw')
      rcases hlive with hlive | ⟨h1, h2⟩
      · rw [hst, hsame'] at hlive
        exact hdead hlive
      · rcases hclaims hfiber with h3 | h3
        · rw [h1] at h3; cases h3
        · rw [h2] at h3; cases h3
    intro u v g hu hv hlive
    by_cases huw : u = w
    · subst huw
      by_cases hvw : v = u
      · exact hvw.symm
      · rw [hself, hother v hvw] at hlive
        exact (hcross v g hvw hu hv hlive).elim
    · by_cases hvw : v = w
      · subst hvw
        rw [hself, hother u huw] at hlive
        exact (hcross u g huw hv hu (hlive.imp_right And.symm)).elim
      · rw [hother u huw, hother v hvw, hkeep u g huw (hhas u g huw hu)] at hlive
        exact h.unique u v g (hhas u g huw hu) (hhas v g hvw hv) hlive
  · -- agrees
    intro w' hw'
    by_cases hne : w' = w
    · subst hne
      rw [hself]
      exact hm.agrees
    · rw [hother w' hne]
      exact Phase.agrees_congr (fun g hg => hkeep w' g hne ⟨hw', hg⟩) (h.agrees w' hw')
  · -- apart
    refine h.apart.imp_of_mem ?_
    intro e e' he he' hee g hg hg' hlive
    by_cases hgf : g = f
    · subst hgf
      rw [hst] at hlive
      rcases hm.revive hlive with hold | hnone
      · exact hee g hg hg' hold
      · exact absurd hg (hnone e he)
    · rw [hsame g hgf] at hlive
      exact hee g hg hg' hlive
  · -- token
    intro w' g e hw' hlive hexec he hg
    by_cases hne : w' = w
    · subst hne
      obtain ⟨rfl, hfiber⟩ := hmine g hw'
      rw [hst] at hlive hexec
      rw [hself]
      exact hm.token hfiber hlive hexec e he hg
    · rw [hkeep w' g hne (hhas w' g hne hw')] at hlive hexec
      rw [hother w' hne]
      exact h.token w' g e (hhas w' g hne hw') hlive hexec he hg
  · -- asCb
    intro w' g hg
    by_cases hne : w' = w
    · subst hne
      rw [hself] at hg ⊢
      exact hm.asCb g hg
    · rw [hother w' hne] at hg ⊢
      exact h.asCb w' g hg
  · -- keptUnique
    intro u v g hu hv
    by_cases huw : u = w
    · subst huw
      by_cases hvw : v = u
      · exact hvw.symm
      · rw [hself] at hu
        rw [hother v hvw] at hv
        exact absurd hv ((hm.kept g hu).2.1 v hvw).1
    · rw [hother u huw] at hu
      by_cases hvw : v = w
      · subst hvw
        rw [hself] at hv
        exact absurd hu ((hm.kept g hv).2.1 u huw).1
      · rw [hother v hvw] at hv
        exact h.keptUnique u v g hu hv
  · -- keptHas
    intro u v g hu hv
    by_cases huw : u = w
    · subst huw
      rw [hself] at hu ⊢
      by_cases hvw : v = u
      · subst hvw
        obtain ⟨rfl, hfiber⟩ := hmine g hv
        exact ⟨rfl, (hm.kept g hu).1 hfiber⟩
      · exact absurd (hhas v g hvw hv) ((hm.kept g hu).2.1 v hvw).2
    · rw [hother u huw] at hu ⊢
      by_cases hvw : v = w
      · subst hvw
        obtain ⟨rfl, hfiber⟩ := hmine g hv
        exact absurd hfiber (hm.others u huw hu).1
      · exact h.keptHas u v g hu (hhas v g hvw hv)
  · -- keptQueue
    intro u g e hu he hg
    by_cases huw : u = w
    · subst huw
      rw [hself] at hu ⊢
      exact (hm.kept g hu).2.2.1 e he hg
    · rw [hother u huw] at hu ⊢
      have hold := h.keptQueue u g e hu he hg
      by_cases hgf : g = f
      · subst hgf
        rwa [hst, (hm.others u huw hu).2]
      · rwa [hsame g hgf]
  · -- idle
    intro w'
    by_cases hne : w' = w
    · subst hne
      rw [hself]
      exact hm.idle
    · rw [hother w' hne]
      exact h.idle w'
  · intro w' g hg
    by_cases hne : w' = w
    · subst hne
      obtain ⟨rfl, hfiber⟩ := hmine g hg
      exact (hm.fiber g hfiber).2
    · exact h.hasCreated w' g (hhas w' g hne hg)
  · intro w' g hg
    by_cases hne : w' = w
    · subst hne
      rw [hself] at hg
      exact (hm.kept g hg).2.2.2
    · rw [hother w' hne] at hg
      exact h.keptCreated w' g hg
  · intro w' hw'
    have hne : w' ≠ w := fun heq => absurd hm.worker (by subst heq; exact Nat.not_lt.mpr hw')
    rw [hother w' hne]
    exact h.outside w' hw'

theorem atIdle_of_fiber {p : Phase} {f : Nat} (h : p.fiber = some f) : p.atIdle = false := by
  cases p <;> first | rfl | cases h

theorem Inv.idle_of_not_atIdle {s : Scheduler} (h : s.Inv) {w : Nat} {x : Worker}
    (hw : (s.workers w).phase.atIdle = false) (hx : x.phase.atIdle = false)
    (hidle : x.idle = (s.workers w).idle) :
    (x.phase = .idling → x.idle = .exec) ∧
    (x.phase ≠ .idling → x.phase ≠ .returnedIdle → x.idle ≠ .exec) ∧ x.idle ≠ .except ∧
    (x.phase = .enteringIdle → x.idle ≠ .term) := by
  obtain ⟨-, hexec, hexcept, -⟩ := h.idle w
  rw [hidle]
  refine ⟨fun hp => ?_, fun _ _ => hexec (fun hp => ?_) (fun hp => ?_), hexcept, fun hp => ?_⟩
  · rw [hp] at hx; cases hx
  · rw [hp] at hw; cases hw
  · rw [hp] at hw; cases hw
  · rw [hp] at hx; cases hx

/-- The worker that has `f` moves on with it, or drops it. -/
theorem Inv.held {s : Scheduler} (h : s.Inv) {w f : Nat} (hw : s.Has w f) {x : Worker}
    {v : FiberState} (hfiber : x.phase.fiber = some f ∨ x.phase.fiber = none)
    (hatIdle : x.phase.atIdle = false) (hidle : x.idle = (s.workers w).idle)
    (hrole : (s.workers w).phase.asCb = some f → x.phase.fiber = some f → x.phase.asCb = some f)
    (hasCb : ∀ g, x.phase.asCb = some g → x.cbFiber = some g)
    (hcb : x.cbFiber = (s.workers w).cbFiber ∨ x.cbFiber = none)
    (hagrees : x.phase.Agrees (Function.update s.state f v))
    (hsole : (s.state f).live ∨ (s.workers w).cbFiber = some f ∨
      (v = s.state f ∧ (x.phase.fiber = some f → (s.workers w).phase.claims = false)))
    (hrevive : v.live → (s.state f).live ∨ ∀ e ∈ s.queue, e.task ≠ .fiber f)
    (htoken : x.phase.fiber = some f → v.live → v ≠ .exec → ∀ e ∈ s.queue, e.task = .fiber f →
      s.Same e.thread (x.phase.token w))
    (hqueue : x.cbFiber = some f → v = .exec ∨ v = .ready ∧ x.phase.fiber = some f ∨
      ∀ e ∈ s.queue, e.task ≠ .fiber f) :
    ((s.setState f v).setWorker w x).Inv := by
  have hold : ∀ g, x.cbFiber = some g → (s.workers w).cbFiber = some g := by
    intro g hg
    rcases hcb with heq | hnone
    · rwa [heq] at hg
    · rw [hnone] at hg; cases hg
  refine h.move ⟨hw.1, ?_, hagrees, ?_, ?_, hrevive, htoken, hasCb, ?_,
    h.idle_of_not_atIdle (atIdle_of_fiber hw.2) hatIdle hidle⟩
  · intro g hg
    rcases hfiber with hf | hf
    · rw [hf] at hg
      exact ⟨(Option.some.inj hg).symm, h.hasCreated w f hw⟩
    · rw [hf] at hg; cases hg
  · intro w' hne hw'
    rcases hsole with hlive | hkept | ⟨hst, hclaims⟩
    · exact absurd (h.unique w w' f hw hw' (Or.inl hlive)).symm hne
    · exact absurd (h.keptHas w w' f hkept hw').1 hne
    · refine ⟨fun hlive => hne (h.unique w w' f hw hw' (Or.inl hlive)).symm, hst, fun hx => ?_⟩
      cases hc : (s.workers w').phase.claims with
      | true => exact Or.inr rfl
      | false => exact absurd (h.unique w w' f hw hw' (Or.inr ⟨hclaims hx, hc⟩)).symm hne
  · intro w' hne hkept
    exact absurd (h.keptHas w' w f hkept hw).1.symm hne
  · intro g hg
    have hg' := hold g hg
    refine ⟨fun hx => ?_, fun w' hne => ⟨fun hk => hne (h.keptUnique w w' g hg' hk).symm,
      fun hk => hne (h.keptHas w w' g hg' hk).1⟩, fun e he hef => ?_, h.keptCreated w g hg'⟩
    · rcases hfiber with hf | hf
      · rw [hf] at hx
        cases hx
        exact hrole (h.keptHas w w f hg' hw).2 hf
      · rw [hf] at hx; cases hx
    · by_cases hgf : g = f
      · subst hgf
        rw [Function.update_self]
        rcases hqueue hg with hexec | hready | hnone
        · exact Or.inl hexec
        · exact Or.inr hready
        · exact absurd hef (hnone e he)
      · rw [Function.update_of_ne hgf]
        rcases h.keptQueue w g e hg' he hef with hexec | ⟨-, hfib⟩
        · exact Or.inl hexec
        · exact absurd (Option.some.inj (hfib.symm.trans hw.2)) hgf

/-- A worker that does not run its `cb_fiber` moves to a phase without a fiber. -/
theorem Inv.free {s : Scheduler} (h : s.Inv) {w : Nat} (hw : w < s.threads)
    (hfree : (s.workers w).phase.asCb = none) {x : Worker} (hx : x.phase.fiber = none)
    (hagrees : x.phase.Agrees s.state) (hasCb : x.phase.asCb = none)
    (hcb : x.cbFiber = (s.workers w).cbFiber)
    (hidle : (x.phase = .idling → x.idle = .exec) ∧
      (x.phase ≠ .idling → x.phase ≠ .returnedIdle → x.idle ≠ .exec) ∧ x.idle ≠ .except ∧
      (x.phase = .enteringIdle → x.idle ≠ .term)) :
    (s.setWorker w x).Inv := by
  have hsame : s.setState s.created (s.state s.created) = s := by
    rw [setState, Function.update_eq_self]
  have hmove := h.move (w := w) (x := x) (f := s.created) (v := s.state s.created)
    ⟨hw, fun g hg => ?_, ?_, fun w' _ hw' => ?_, fun w' _ hk => ?_, Or.inl, fun hf => ?_,
      fun g hg => ?_, fun g hg => ?_, hidle⟩
  · rwa [hsame] at hmove
  · rw [hx] at hg; cases hg
  · rw [Function.update_eq_self]; exact hagrees
  · exact absurd (h.hasCreated w' _ hw') (Nat.lt_irrefl _)
  · exact absurd (h.keptCreated w' _ hk) (Nat.lt_irrefl _)
  · rw [hx] at hf; cases hf
  · rw [hasCb] at hg; cases hg
  · rw [hcb] at hg
    refine ⟨fun hf => ?_, fun w' hne => ⟨fun hk => hne (h.keptUnique w w' g hg hk).symm,
      fun hk => hne (h.keptHas w w' g hg hk).1⟩, fun e he heg => ?_, h.keptCreated w g hg⟩
    · rw [hx] at hf; cases hf
    · rw [Function.update_eq_self]
      rcases h.keptQueue w g e hg he heg with hexec | ⟨-, hfib⟩
      · exact Or.inl hexec
      · have hasCb' := (h.keptHas w w g hg ⟨hw, hfib⟩).2
        rw [hfree] at hasCb'
        cases hasCb'

/-! ## The queue -/

theorem scanQueue_some {state : Nat → FiberState} {w : Nat} {queue : List FiberAndThread}
    {e : FiberAndThread} (h : (scanQueue state w queue).ft = some e) :
    ∃ l r, queue = l ++ e :: r ∧ (scanQueue state w queue).rest = l ++ r ∧
      e.mayRun w = true ∧ e.task.isExec state = false := by
  induction queue with
  | nil => cases h
  | cons d es ih =>
    simp only [scanQueue] at h ⊢
    by_cases hpin : d.mayRun w = true
    · by_cases hexec : d.task.isExec state = true
      · simp only [hpin, hexec, Bool.not_true, Bool.false_eq_true, if_false, if_true] at h ⊢
        obtain ⟨l, r, rfl, hrest, hrun, hnot⟩ := ih h
        exact ⟨d :: l, r, rfl, by rw [hrest]; rfl, hrun, hnot⟩
      · simp only [hpin, hexec, Bool.not_true, Bool.false_eq_true, if_false] at h ⊢
        cases h
        exact ⟨[], es, rfl, rfl, hpin, by simpa using hexec⟩
    · simp only [hpin, Bool.not_false, if_true] at h ⊢
      obtain ⟨l, r, rfl, hrest, hrun, hnot⟩ := ih h
      exact ⟨d :: l, r, rfl, by rw [hrest]; rfl, hrun, hnot⟩

theorem Inv.dequeue {s : Scheduler} (h : s.Inv) {queue : List FiberAndThread}
    (hsub : queue.Sublist s.queue) : ({ s with queue := queue } : Scheduler).Inv where
  unique := h.unique
  agrees := h.agrees
  apart := h.apart.sublist hsub
  token w f e hw hlive hexec he := h.token w f e hw hlive hexec (hsub.subset he)
  asCb := h.asCb
  keptUnique := h.keptUnique
  keptHas := h.keptHas
  keptQueue w f e hk he := h.keptQueue w f e hk (hsub.subset he)
  idle := h.idle
  hasCreated := h.hasCreated
  queueCreated e he := h.queueCreated e (hsub.subset he)
  keptCreated := h.keptCreated
  outside := h.outside

/-- A task may be scheduled if it is no fiber, or under the guard. -/
theorem Inv.enqueueJob {s : Scheduler} (h : s.Inv) {job : Job} {thread : Option Nat}
    (hcreated : ∀ f, job = .fiber f → f < s.created)
    (hmay : ∀ f, job = .fiber f → (s.state f).live → s.MaySchedule f thread)
    (hkept : ∀ f, job = .fiber f → ∀ w, (s.workers w).cbFiber = some f → s.state f = .exec) :
    (s.scheduleNoLock job thread).Inv where
  unique := h.unique
  agrees := h.agrees
  apart := by
    refine List.pairwise_append.mpr ⟨h.apart, List.pairwise_singleton _ _, ?_⟩
    intro e he e' he' g hg hg' hlive
    obtain rfl := List.mem_singleton.mp he'
    exact (hmay g hg' hlive).1 e he hg
  token w g e hw hlive hexec he hg := by
    rcases List.mem_append.mp he with he | he
    · exact h.token w g e hw hlive hexec he hg
    · obtain rfl := List.mem_singleton.mp he
      exact ((hmay g hg hlive).2 hexec w hw).symm
  asCb := h.asCb
  keptUnique := h.keptUnique
  keptHas := h.keptHas
  keptQueue w g e hk he hg := by
    rcases List.mem_append.mp he with he | he
    · exact h.keptQueue w g e hk he hg
    · obtain rfl := List.mem_singleton.mp he
      exact Or.inl (hkept g hg w hk)
  idle := h.idle
  hasCreated := h.hasCreated
  queueCreated e he g hg := by
    rcases List.mem_append.mp he with he | he
    · exact h.queueCreated e he g hg
    · obtain rfl := List.mem_singleton.mp he
      exact hcreated g hg
  keptCreated := h.keptCreated
  outside := h.outside

theorem Inv.enqueue {s : Scheduler} (h : s.Inv) {f : Nat} {thread : Option Nat}
    (hcreated : f < s.created) (hmay : (s.state f).live → s.MaySchedule f thread)
    (hkept : ∀ w, (s.workers w).cbFiber = some f → s.state f = .exec) :
    (s.scheduleNoLock (.fiber f) thread).Inv := by
  refine h.enqueueJob ?_ ?_ ?_
  · rintro _ ⟨⟩
    exact hcreated
  · rintro _ ⟨⟩
    exact hmay
  · rintro _ ⟨⟩
    exact hkept

theorem Inv.enqueueCb {s : Scheduler} (h : s.Inv) (thread : Option Nat) :
    (s.scheduleNoLock .cb thread).Inv :=
  h.enqueueJob nofun nofun nofun

/-! ## Steps -/

theorem Inv.create {s : Scheduler} (h : s.Inv) :
    ({ s with created := s.created + 1 } : Scheduler).Inv where
  unique := h.unique
  agrees := h.agrees
  apart := h.apart
  token := h.token
  asCb := h.asCb
  keptUnique := h.keptUnique
  keptHas := h.keptHas
  keptQueue := h.keptQueue
  idle := h.idle
  hasCreated w f hw := Nat.lt_succ_of_lt (h.hasCreated w f hw)
  queueCreated e he f hf := Nat.lt_succ_of_lt (h.queueCreated e he f hf)
  keptCreated w f hf := Nat.lt_succ_of_lt (h.keptCreated w f hf)
  outside := h.outside

theorem Inv.scan {s t : Scheduler} (h : s.Inv) {w : Nat} (hw : w < s.threads)
    (hs : s.scan w = some t) : t.Inv := by
  unfold Scheduler.scan at hs
  split at hs
  case h_2 => cases hs
  case h_1 hphase =>
    dsimp only at hs
    split at hs
    case h_2 hnone =>
      cases hs
      have hidle := h.idle w
      rw [hphase] at hidle
      obtain ⟨-, hexec, hexcept, -⟩ := hidle
      have hne : (s.workers w).idle ≠ .exec := hexec (by simp) (by simp)
      refine h.free hw (by rw [hphase]; rfl) ?_ ?_ ?_ rfl ?_
      · dsimp only; split <;> rfl
      · dsimp only; split <;> trivial
      · dsimp only; split <;> rfl
      · dsimp only
        split
        · exact ⟨by simp, fun _ _ => hne, hexcept, by simp⟩
        · rename_i hterm
          exact ⟨by simp, fun _ _ => hne, hexcept, fun _ => hterm⟩
    case h_1 e he =>
      cases hs
      obtain ⟨l, r, hqueue, hrest, hrun, hexec⟩ := scanQueue_some he
      have hmem : e ∈ s.queue := by rw [hqueue]; simp
      have hsub : (scanQueue s.state w s.queue).rest.Sublist s.queue := by
        rw [hrest, hqueue]
        exact List.Sublist.append_left (List.sublist_cons_self e r) l
      have hdeq := h.dequeue hsub
      obtain ⟨task, thread⟩ := e
      cases task with
      | cb =>
        refine hdeq.free hw (by rw [hphase]; rfl) rfl trivial rfl rfl ?_
        have hidle := h.idle w
        rw [hphase] at hidle
        exact ⟨by simp, fun _ _ => hidle.2.1 (by simp) (by simp), hidle.2.2.1, by simp⟩
      | fiber f =>
        have hnotexec : s.state f ≠ .exec := by simpa [Job.isExec] using hexec
        have hcan : s.CanRun thread w := ⟨hw, by simpa [FiberAndThread.mayRun] using hrun⟩
        have hkept : ∀ w', (s.workers w').cbFiber ≠ some f := by
          intro w' hk
          rcases h.keptQueue w' f _ hk hmem rfl with hexec' | ⟨hready, hfib⟩
          · exact hnotexec hexec'
          · have hw' : s.Has w' f := ⟨h.lt_of_kept hk, hfib⟩
            have hlive : (s.state f).live := by rw [hready]; exact ⟨by simp, by simp⟩
            obtain rfl := h.token w' f _ hw' hlive hnotexec hmem rfl w w' hcan hw'.canRun_token
            rw [hphase] at hfib
            cases hfib
        have hself : Function.update s.state f (s.state f) = s.state := Function.update_eq_self _ _
        have hmove := hdeq.move (w := w) (f := f) (v := s.state f)
          (x := { s.workers w with phase := .claimed (.fiber f) })
          ⟨hw, fun g hg => ⟨(Option.some.inj hg).symm, h.queueCreated _ hmem f rfl⟩, ?_, ?_,
            fun w' _ hk => absurd hk (hkept w'), Or.inl, ?_, fun g hg => (by cases hg), ?_, ?_⟩
        · rwa [setState, hself] at hmove
        · rw [hself]; exact hnotexec
        · -- another worker that has the fiber could not take this entry too
          intro w' hne hw'
          refine ⟨fun hlive => ?_, rfl, fun _ => Or.inl rfl⟩
          exact hne (h.token w' f _ hw' hlive hnotexec hmem rfl w w' hcan hw'.canRun_token).symm
        · intro _ hlive _ e' he' hfe
          refine Same.symm (Same.take ?_ hcan)
          rw [hrest] at he'
          have hapart := h.apart
          rw [hqueue] at hapart
          obtain ⟨-, hr, hlr⟩ := List.pairwise_append.mp hapart
          rcases List.mem_append.mp he' with hl | hr'
          · exact (hlr e' hl ⟨.fiber f, thread⟩ (by simp) f hfe rfl hlive).symm
          · exact (List.pairwise_cons.mp hr).1 e' hr' f rfl hfe hlive
        · intro g hg
          have hgf : g ≠ f := fun heq => hkept w (heq ▸ hg)
          refine ⟨fun hx => absurd (Option.some.inj hx).symm hgf,
            fun w' hne => ⟨fun hk => hne (h.keptUnique w w' g hg hk).symm,
              fun hk => hne (h.keptHas w w' g hg hk).1⟩, fun e' he' heg => ?_, h.keptCreated w g hg⟩
          rw [Function.update_of_ne hgf]
          rcases h.keptQueue w g e' hg (hsub.subset he') heg with hexec' | ⟨-, hfib⟩
          · exact Or.inl hexec'
          · rw [hphase] at hfib
            cases hfib
        · exact h.idle_of_not_atIdle (by rw [hphase]; rfl) rfl rfl

theorem Inv.prepare {s t : Scheduler} (h : s.Inv) {w : Nat} (hw : w < s.threads)
    (hs : s.prepare w = some t) : t.Inv := by
  unfold Scheduler.prepare at hs
  split at hs
  case h_3 => cases hs
  case h_1 f hphase =>
    cases hs
    have hhas : s.Has w f := ⟨hw, by rw [hphase]; rfl⟩
    have hagrees := h.agrees w hw
    rw [hphase] at hagrees
    have hcb : (s.workers w).cbFiber ≠ some f := fun hk => by
      have := (h.keptHas w w f hk hhas).2
      rw [hphase] at this
      cases this
    have hidle : (s.workers w).phase.atIdle = false := by rw [hphase]; rfl
    by_cases hlive : s.state f ≠ .term ∧ s.state f ≠ .except
    · have hself : Function.update s.state f (s.state f) = s.state := Function.update_eq_self _ _
      have hheld := h.held hhas (x := { s.workers w with phase := .entering f .task })
        (v := s.state f) (Or.inl rfl) rfl rfl (fun hc => by rw [hphase] at hc; cases hc)
        (fun g hg => by cases hg) (Or.inl rfl) (by rw [hself]; exact ⟨hagrees, hlive⟩)
        (Or.inl hlive) Or.inl (fun _ hl he e hmem hf => by
          have := h.token w f e hhas hl he hmem hf
          rwa [hphase] at this)
        (fun hk => absurd hk hcb)
      rw [setState, hself] at hheld
      rw [if_pos hlive]
      exact hheld
    · rw [if_neg hlive]
      exact h.free hw (by rw [hphase]; rfl) rfl trivial rfl rfl (h.idle_of_not_atIdle hidle rfl rfl)
  case h_2 hphase =>
    have hidle : (s.workers w).phase.atIdle = false := by rw [hphase]; rfl
    split at hs
    · -- the fiber kept for this: nobody has it, and it is in no queue entry
      rename_i f hkept
      simp only [Option.ite_none_right_eq_some, Option.some.injEq] at hs
      obtain ⟨hreset, rfl⟩ := hs
      have hnotexec : s.state f ≠ .exec := by
        intro hexec
        simp [mayReset, hexec] at hreset
      have hnoqueue : ∀ e ∈ s.queue, e.task ≠ .fiber f := by
        intro e he hf
        rcases h.keptQueue w f e hkept he hf with hexec | ⟨hready, -⟩
        · exact hnotexec hexec
        · simp [mayReset, hready] at hreset
      refine h.move ⟨hw, fun g hg => ⟨(Option.some.inj hg).symm, h.keptCreated w f hkept⟩, ?_,
        fun w' hne hw' => absurd (h.keptHas w w' f hkept hw').1 hne,
        fun w' hne hk => absurd (h.keptUnique w w' f hkept hk).symm hne, fun _ => Or.inr hnoqueue,
        fun _ _ _ e he hf => absurd hf (hnoqueue e he), fun g hg => ?_, fun g hg => ?_,
        h.idle_of_not_atIdle hidle rfl rfl⟩
      · simp [Phase.Agrees]
      · cases hg; exact hkept
      · obtain rfl := Option.some.inj (hkept.symm.trans hg)
        exact ⟨fun _ => rfl, fun w' hne => ⟨fun hk => hne (h.keptUnique w w' f hkept hk).symm,
          fun hk => hne (h.keptHas w w' f hkept hk).1⟩, fun e he hf => absurd hf (hnoqueue e he),
          h.keptCreated w f hkept⟩
    · -- a new fiber, unknown to everyone
      rename_i hkept
      cases hs
      have hnoqueue : ∀ e ∈ s.queue, e.task ≠ .fiber s.created := fun e he hf =>
        absurd (h.queueCreated e he _ hf) (Nat.lt_irrefl _)
      have hnohas : ∀ w', ¬ s.Has w' s.created := fun w' hw' =>
        absurd (h.hasCreated w' _ hw') (Nat.lt_irrefl _)
      have hnokept : ∀ w', (s.workers w').cbFiber ≠ some s.created := fun w' hk =>
        absurd (h.keptCreated w' _ hk) (Nat.lt_irrefl _)
      refine h.create.move (f := s.created) (v := .init)
        ⟨hw, fun g hg => ⟨(Option.some.inj hg).symm, Nat.lt_succ_self _⟩, ?_,
        fun w' _ hw' => absurd hw' (hnohas w'), fun w' _ hk => absurd hk (hnokept w'),
        fun _ => Or.inr hnoqueue, fun _ _ _ e he hf => absurd hf (hnoqueue e he),
        fun g hg => hg, fun g hg => ?_, h.idle_of_not_atIdle hidle rfl rfl⟩
      · simp [Phase.Agrees]
      · cases hg
        exact ⟨fun _ => rfl, fun w' _ => ⟨hnokept w', hnohas w'⟩,
          fun e he hf => absurd hf (hnoqueue e he), Nat.lt_succ_self _⟩

theorem Inv.asCb_of {s : Scheduler} (h : s.Inv) {w : Nat} {p q : Phase}
    (hphase : (s.workers w).phase = p) (heq : q.asCb = p.asCb) (g : Nat) (hg : q.asCb = some g) :
    (s.workers w).cbFiber = some g :=
  h.asCb w g (by rw [hphase, ← heq, hg])

/-- The switch into a fiber: nobody else is waiting to run it. -/
theorem Inv.swapIn {s t : Scheduler} (h : s.Inv) {w : Nat} (hw : w < s.threads)
    (hs : s.swapIn w = some t) : t.Inv := by
  unfold Scheduler.swapIn at hs
  split at hs
  case h_3 => cases hs
  case h_1 f r hphase =>
    simp only [Option.ite_none_left_eq_some, Option.some.injEq] at hs
    obtain ⟨-, rfl⟩ := hs
    have hagrees := h.agrees w hw
    rw [hphase] at hagrees
    refine h.held ⟨hw, by rw [hphase]; rfl⟩ (Or.inl rfl) rfl rfl ?_ ?_ (Or.inl rfl)
      (Function.update_self _ _ _) (Or.inl hagrees.2) (fun _ => Or.inl hagrees.2)
      (fun _ _ hne => absurd rfl hne) (fun _ => Or.inl rfl)
    · rw [hphase]; cases r <;> exact fun hc _ => hc
    · exact h.asCb_of hphase (by cases r <;> rfl)
  case h_2 hphase =>
    simp only [Option.ite_none_left_eq_some, Option.some.injEq] at hs
    obtain ⟨-, rfl⟩ := hs
    exact h.free hw (by rw [hphase]; rfl) rfl trivial rfl rfl
      ⟨fun _ => rfl, fun hne => absurd rfl hne, by simp, by simp⟩

/-- A worker moves on with its fiber, whose state stays as it is. -/
theorem Inv.keep {s : Scheduler} (h : s.Inv) {w f : Nat} (hw : s.Has w f) {p q : Phase}
    (hp : (s.workers w).phase = p) (hq : q.fiber = some f) (hcb : q.asCb = p.asCb)
    (hclaims : p.claims = false) (htoken : q.token w = p.token w) (hagrees : q.Agrees s.state) :
    (s.setPhase w q).Inv := by
  have hself : Function.update s.state f (s.state f) = s.state := Function.update_eq_self _ _
  have hheld := h.held hw (x := { s.workers w with phase := q }) (v := s.state f) (Or.inl hq)
    (atIdle_of_fiber hq) rfl (fun hc _ => by rw [hcb, ← hp]; exact hc) (h.asCb_of hp hcb)
    (Or.inl rfl) (by rw [hself]; exact hagrees)
    (Or.inr (Or.inr ⟨rfl, fun _ => by rw [hp]; exact hclaims⟩)) Or.inl
    (fun _ hl he e hmem hf => by
      rw [htoken, ← hp]
      exact h.token w f e hw hl he hmem hf)
    (fun hk => by
      by_cases hany : ∃ e ∈ s.queue, e.task = .fiber f
      · obtain ⟨e, he, hf⟩ := hany
        exact (h.keptQueue w f e hk he hf).imp id fun hready => Or.inl ⟨hready.1, hq⟩
      · exact Or.inr (Or.inr fun e he hf => hany ⟨e, he, hf⟩))
  rwa [setState, hself] at hheld

theorem Inv.yieldToReady {s t : Scheduler} (h : s.Inv) {w : Nat} (hw : w < s.threads)
    (hg : SchedGuard s (.yieldToReady w)) (hs : s.yieldToReady w = some t) : t.Inv := by
  unfold Scheduler.yieldToReady at hs
  split at hs
  case h_2 => cases hs
  case h_1 f r hphase =>
    cases hs
    have hexec := h.agrees w hw
    rw [hphase] at hexec
    have hhas : s.Has w f := ⟨hw, by rw [hphase]; rfl⟩
    have hlive : (s.state f).live := by rw [hexec]; exact ⟨by simp, by simp⟩
    refine h.held hhas (Or.inl rfl) rfl rfl ?_ (h.asCb_of hphase (by cases r <;> rfl)) (Or.inl rfl)
      (Or.inl (Function.update_self _ _ _)) (Or.inl hlive) (fun _ => Or.inl hlive)
      (fun _ _ _ => hg f r hphase) ?_
    · rw [hphase]; cases r <;> exact fun hc _ => hc
    · exact fun _ => Or.inr (Or.inl ⟨rfl, rfl⟩)

theorem Inv.yieldToHold {s t : Scheduler} (h : s.Inv) {w : Nat} (hw : w < s.threads)
    (hs : s.yieldToHold w = some t) : t.Inv := by
  unfold Scheduler.yieldToHold at hs
  split at hs
  case h_3 => cases hs
  case h_1 f r hphase =>
    cases hs
    have hexec := h.agrees w hw
    rw [hphase] at hexec
    exact h.keep ⟨hw, by rw [hphase]; rfl⟩ hphase rfl (by cases r <;> rfl) rfl rfl (Or.inl hexec)
  case h_2 hphase =>
    cases hs
    have hidle := h.idle w
    exact h.free hw (by rw [hphase]; rfl) rfl trivial rfl rfl
      ⟨by simp, fun _ hne => absurd rfl hne, hidle.2.2.1, by simp⟩

theorem Inv.swapOut {s t : Scheduler} (h : s.Inv) {w : Nat} (hw : w < s.threads)
    (hs : s.swapOut w = some t) : t.Inv := by
  unfold Scheduler.swapOut at hs
  split at hs
  case h_2 => cases hs
  case h_1 f r hphase =>
    cases hs
    have hagrees := h.agrees w hw
    rw [hphase] at hagrees
    exact h.keep ⟨hw, by rw [hphase]; rfl⟩ hphase rfl (by cases r <;> rfl) rfl rfl (Or.inr hagrees)

/-- A fiber a worker runs as a task is not its `cb_fiber`. -/
theorem Inv.not_kept {s : Scheduler} (h : s.Inv) {w f : Nat} (hw : s.Has w f)
    (hcb : (s.workers w).phase.asCb = none) : ∀ w', (s.workers w').cbFiber ≠ some f := by
  intro w' hk
  obtain ⟨rfl, hrole⟩ := h.keptHas w' w f hk hw
  rw [hcb] at hrole
  cases hrole

theorem Inv.leave {s t : Scheduler} (h : s.Inv) {w : Nat} (hw : w < s.threads)
    {v : FiberState} (hst : v = .term ∨ v = .except)
    (hg : ∀ f, (s.workers w).phase = .running f .cb → ∀ e ∈ s.queue, e.task ≠ .fiber f)
    (hidle : (s.workers w).phase = .idling → v = .term)
    (hs : s.leave w v = some t) : t.Inv := by
  have hdead : ¬ v.live := by
    rintro ⟨hterm, hexcept⟩
    exact hst.elim hterm hexcept
  unfold Scheduler.leave at hs
  split at hs
  case h_3 => cases hs
  case h_1 f r hphase =>
    cases hs
    have hexec := h.agrees w hw
    rw [hphase] at hexec
    have hhas : s.Has w f := ⟨hw, by rw [hphase]; rfl⟩
    refine h.held hhas (Or.inl rfl) rfl rfl ?_ (h.asCb_of hphase (by cases r <;> rfl)) (Or.inl rfl)
      ?_ (Or.inl ?_) (fun hl => absurd hl hdead) (fun _ hl => absurd hl hdead) ?_
    · rw [hphase]; cases r <;> exact fun hc _ => hc
    · simp only [Phase.Agrees, Function.update_self]
      exact Or.inr hst
    · rw [hexec]; exact ⟨by simp, by simp⟩
    · intro hk
      cases r with
      | task => exact absurd hk (h.not_kept hhas (by rw [hphase]; rfl) w)
      | cb => exact Or.inr (Or.inr (hg f hphase))
  case h_2 hphase =>
    cases hs
    rw [hidle hphase]
    exact h.free hw (by rw [hphase]; rfl) rfl trivial rfl rfl
      ⟨by simp, fun _ hne => absurd rfl hne, by simp, by simp⟩

theorem Inv.settle {s t : Scheduler} (h : s.Inv) {w : Nat} (hw : w < s.threads)
    (hs : s.settle w = some t) : t.Inv := by
  unfold Scheduler.settle at hs
  split at hs
  case h_3 => cases hs
  case h_1 f r hphase =>
    cases hs
    have hagrees := h.agrees w hw
    rw [hphase] at hagrees
    have hhas : s.Has w f := ⟨hw, by rw [hphase]; rfl⟩
    by_cases hready : s.state f = .ready
    · rw [if_pos hready]
      exact h.keep hhas hphase rfl (by cases r <;> rfl) rfl rfl hready
    · rw [if_neg hready]
      by_cases hended : s.state f = .term ∨ s.state f = .except
      · rw [if_pos hended]
        cases r with
        | task =>
          exact h.free hw (by rw [hphase]; rfl) rfl trivial rfl rfl
            (h.idle_of_not_atIdle (by rw [hphase]; rfl) rfl rfl)
        | cb => exact h.keep hhas hphase rfl rfl rfl rfl hended
      · rw [if_neg hended]
        have hexec : s.state f = .exec := by
          rcases hagrees with he | he | he
          · exact he
          · exact absurd he hready
          · exact absurd he hended
        exact h.keep hhas hphase rfl (by cases r <;> rfl) rfl rfl hexec
  case h_2 hphase =>
    cases hs
    have hidle := (h.idle w).2.2.1
    refine h.free hw (by rw [hphase]; rfl) rfl trivial rfl rfl ⟨by simp, fun _ _ => ?_, ?_, by simp⟩
    · dsimp only
      split
      · simp
      · rename_i hended
        intro hexec
        simp [hexec] at hended
    · dsimp only
      split
      · simp
      · exact hidle

/-- The worker gives the fiber up: its state becomes `v`, and the worker scans again. -/
theorem Inv.drop {s : Scheduler} (h : s.Inv) {w f : Nat} (hw : s.Has w f) {v : FiberState}
    {cb : Option Nat}
    (hcb : cb = none ∨ cb = (s.workers w).cbFiber ∧ (s.workers w).phase.asCb = none)
    (hlive : (s.state f).live) :
    ((s.setState f v).setWorker w { s.workers w with phase := .scan, cbFiber := cb }).Inv := by
  refine h.held hw (Or.inr rfl) rfl rfl (fun _ hf => by cases hf) (fun g hg => by cases hg)
    (hcb.symm.imp_left And.left) trivial (Or.inl hlive) (fun _ => Or.inl hlive)
    (fun hf => by cases hf) (fun hk => ?_)
  rcases hcb with rfl | ⟨rfl, hrole⟩
  · cases hk
  · exact absurd hk (h.not_kept hw hrole w)

/-- A `READY` fiber is scheduled again, and its worker scans. -/
theorem Inv.requeue {s : Scheduler} (h : s.Inv) {w f : Nat} {r : Role} (hw : w < s.threads)
    (hphase : (s.workers w).phase = .requeue f r) {cb : Option Nat}
    (hcb : cb = none ∨ cb = (s.workers w).cbFiber ∧ (s.workers w).phase.asCb = none) :
    ((s.setWorker w { s.workers w with phase := .scan, cbFiber := cb }).scheduleNoLock
      (.fiber f) none).Inv := by
  have hhas : s.Has w f := ⟨hw, by rw [hphase]; rfl⟩
  have hready := h.agrees w hw
  rw [hphase] at hready
  have hlive : (s.state f).live := by rw [hready]; exact ⟨by simp, by simp⟩
  have hself : s.setState f (s.state f) = s := by rw [setState, Function.update_eq_self]
  have hdrop := h.drop hhas (v := s.state f) hcb hlive
  rw [hself] at hdrop
  refine hdrop.enqueue (h.hasCreated w f hhas) (fun _ => ⟨fun e he hf => ?_, fun _ w' hw' => ?_⟩)
    fun w' hk => ?_
  · have htoken := h.token w f e hhas hlive (by rw [hready]; simp) he hf
    rwa [hphase] at htoken
  · obtain ⟨hlt, hfib⟩ := hw'
    by_cases hne : w' = w
    · subst hne
      simp [setWorker, Phase.fiber] at hfib
    · simp only [setWorker, Function.update_of_ne hne] at hfib
      exact absurd (h.unique w' w f ⟨hlt, hfib⟩ hhas (Or.inl hlive)) hne
  · by_cases hne : w' = w
    · subst hne
      simp only [setWorker, Function.update_self] at hk
      rcases hcb with rfl | ⟨rfl, hrole⟩
      · cases hk
      · exact absurd hk (h.not_kept hhas hrole w')
    · simp only [setWorker, Function.update_of_ne hne] at hk
      exact absurd (h.keptHas w' w f hk hhas).1.symm hne

theorem Inv.finish {s t : Scheduler} (h : s.Inv) {w : Nat} (hw : w < s.threads)
    (hs : s.finish w = some t) : t.Inv := by
  unfold Scheduler.finish at hs
  split at hs
  case h_6 => cases hs
  case h_1 f hphase =>
    cases hs
    exact h.requeue hw hphase (Or.inr ⟨rfl, by rw [hphase]; rfl⟩)
  case h_2 f hphase =>
    cases hs
    exact h.requeue hw hphase (Or.inl rfl)
  case h_3 f hphase =>
    cases hs
    have hexec := h.agrees w hw
    rw [hphase] at hexec
    exact h.drop ⟨hw, by rw [hphase]; rfl⟩ (Or.inr ⟨rfl, by rw [hphase]; rfl⟩)
      (by rw [hexec]; exact ⟨by simp, by simp⟩)
  case h_4 f hphase =>
    cases hs
    have hexec := h.agrees w hw
    rw [hphase] at hexec
    exact h.drop ⟨hw, by rw [hphase]; rfl⟩ (Or.inl rfl)
      (by rw [hexec]; exact ⟨by simp, by simp⟩)
  case h_5 f hphase =>
    simp only [Option.ite_none_right_eq_some, Option.some.injEq] at hs
    obtain ⟨-, rfl⟩ := hs
    have hended := h.agrees w hw
    rw [hphase] at hended
    have hkept := h.asCb w f (by rw [hphase]; rfl)
    have hnoqueue : ∀ e ∈ s.queue, e.task ≠ .fiber f := by
      intro e he hf
      rcases h.keptQueue w f e hkept he hf with hexec | ⟨hready, -⟩
      · rw [Phase.Agrees, hexec] at hended
        simp at hended
      · rw [Phase.Agrees, hready] at hended
        simp at hended
    exact h.held ⟨hw, by rw [hphase]; rfl⟩ (Or.inr rfl) rfl rfl (fun _ hf => by cases hf)
      (fun g hg => by cases hg) (Or.inl rfl) trivial (Or.inr (Or.inl hkept))
      (fun _ => Or.inr hnoqueue) (fun hf => by cases hf) (fun _ => Or.inr (Or.inr hnoqueue))

theorem Inv.initial (threads : Nat) : ({ threads := threads } : Scheduler).Inv where
  unique _ _ _ h := by cases h.2
  agrees _ _ := trivial
  apart := List.Pairwise.nil
  token _ _ _ h := by cases h.2
  asCb _ _ h := by cases h
  keptUnique _ _ _ h := by cases h
  keptHas _ _ _ h := by cases h
  keptQueue _ _ _ h := by cases h
  idle _ := ⟨fun h => (by cases h), fun _ _ => by simp, by simp, fun h => (by cases h)⟩
  hasCreated _ _ h := by cases h.2
  queueCreated _ h := by cases h
  keptCreated _ _ h := by cases h
  outside _ _ := rfl

theorem Inv.step {s t : Scheduler} (h : s.Inv) {a : SchedAction} (hg : SchedGuard s a)
    (hs : s.step a = some t) : t.Inv := by
  simp only [Scheduler.step, Option.ite_none_left_eq_some] at hs
  obtain ⟨hworker, hs⟩ := hs
  cases a with
  | create =>
    cases hs
    exact h.create
  | schedule task thread =>
    simp only [Option.ite_none_right_eq_some, Option.some.injEq] at hs
    obtain ⟨hknown, rfl⟩ := hs
    cases task with
    | cb => exact h.enqueueCb thread
    | fiber f =>
      exact h.enqueue (by simpa [Job.known] using hknown) hg.1
        fun w hk => hg.2 w (h.lt_of_kept hk) hk
  | scan w => exact h.scan (by simpa [SchedAction.worker] using hworker) hs
  | prepare w => exact h.prepare (by simpa [SchedAction.worker] using hworker) hs
  | swapIn w => exact h.swapIn (by simpa [SchedAction.worker] using hworker) hs
  | yieldToReady w => exact h.yieldToReady (by simpa [SchedAction.worker] using hworker) hg hs
  | yieldToHold w => exact h.yieldToHold (by simpa [SchedAction.worker] using hworker) hs
  | terminate w =>
    exact h.leave (by simpa [SchedAction.worker] using hworker) (Or.inl rfl) hg (fun _ => rfl) hs
  | throw w =>
    exact h.leave (by simpa [SchedAction.worker] using hworker) (Or.inr rfl) hg.1
      (fun hidle => absurd hidle hg.2) hs
  | swapOut w => exact h.swapOut (by simpa [SchedAction.worker] using hworker) hs
  | settle w => exact h.settle (by simpa [SchedAction.worker] using hworker) hs
  | finish w => exact h.finish (by simpa [SchedAction.worker] using hworker) hs

/-! ## Safety of guarded runs -/

theorem fiber_of_active {p : Phase} {f : Nat} (h : p.active f) :
    p.fiber = some f ∧ p.claims = false := by
  cases p <;> first | exact h.elim | exact ⟨congrArg some h, rfl⟩

theorem Inv.safe {s : Scheduler} (h : s.Inv) : s.Safe where
  swapIn w f r hw hphase := by
    have hagrees := h.agrees w hw
    rw [hphase] at hagrees
    refine ⟨hagrees.1, hagrees.2.1, hagrees.2.2, fun w' hw' hactive => ?_⟩
    obtain ⟨hfib, -⟩ := fiber_of_active hactive
    obtain rfl := h.unique w w' f ⟨hw, by rw [hphase]; rfl⟩ ⟨hw', hfib⟩ (Or.inl hagrees.2)
    rw [hphase] at hactive
    exact hactive
  swapInIdle w hw hphase := by
    obtain ⟨-, hexec, hexcept, hterm⟩ := h.idle w
    rw [hphase] at hexec hterm
    exact ⟨hexec (by simp) (by simp), hterm rfl, hexcept⟩
  active w w' f hw hw' ha ha' := by
    obtain ⟨hfib, hclaims⟩ := fiber_of_active ha
    obtain ⟨hfib', hclaims'⟩ := fiber_of_active ha'
    exact h.unique w w' f ⟨hw, hfib⟩ ⟨hw', hfib'⟩ (Or.inr ⟨hclaims, hclaims'⟩)

end Scheduler

/-- On any number of worker threads, in every state of a run whose steps meet the guard, no
    worker is about to swap in a fiber that runs or has ended, and no fiber is active on two
    workers. -/
theorem sched_safe {s : Scheduler} (h : schedMachine.Reach SchedGuard s) : s.Safe := by
  refine (h.invariant (P := Scheduler.Inv) ?_ ?_).safe
  · rintro s ⟨threads, rfl⟩
    exact Scheduler.Inv.initial threads
  · intro s a t hs hg hstep
    exact hs.step hg hstep

/-- Two workers, one of which is about to swap in a fiber scheduled once. -/
def scheduledOnce : Scheduler :=
  (schedMachine.run { threads := 2 }
    [.create, .schedule (.fiber 0) none, .scan 0, .prepare 0]).getD { threads := 2 }

theorem sched_safe_scheduledOnce : scheduledOnce.Safe := by
  refine sched_safe (.of_run [SchedAction.create, .schedule (.fiber 0) none, .scan 0, .prepare 0]
    (.init ⟨2, rfl⟩) ⟨trivial, fun s hs => ⟨?_, fun _ _ => ⟨trivial, fun _ _ =>
      ⟨trivial, fun _ _ => trivial⟩⟩⟩⟩ rfl)
  cases hs
  exact ⟨fun _ => ⟨fun e he => (by cases he), fun _ w hw => (by cases hw.2)⟩,
    fun w _ hk => (by cases hk)⟩

/-- A fiber scheduled twice and taken by two workers before either has swapped it in: the
    second `swapIn` finds it in state `EXEC`. -/
def scheduledTwice : Scheduler :=
  (schedMachine.run { threads := 2 }
    [.create, .schedule (.fiber 0) none, .schedule (.fiber 0) none, .scan 0, .scan 1, .prepare 0,
      .prepare 1, .swapIn 0]).getD { threads := 2 }

theorem swapIn_of_running : ¬ ∀ s, schedMachine.Reachable s → s.Safe := by
  intro h
  have hreach : schedMachine.Reachable scheduledTwice :=
    .of_run [SchedAction.create, .schedule (.fiber 0) none, .schedule (.fiber 0) none, .scan 0,
      .scan 1, .prepare 0, .prepare 1, .swapIn 0] ⟨2, rfl⟩ rfl
  exact ((h _ hreach).swapIn 1 0 .task (by decide) rfl).1 rfl

end CppServerFramework.Async

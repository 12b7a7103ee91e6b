import CppServerFramework.Async.Fiber

/-!
# Where control goes when it leaves a fiber

On a worker thread the main fiber is the thread fiber, and every exit routine leads back to
the loop of `run`.  On the caller thread they differ: `swapOut` leads to the root fiber,
`uncall` to the thread fiber.  The constructor gives the root fiber `MainFunc`, which ends
with a `swapOut` to the root fiber itself, and gives tasks `MainFuncCaller`, which ends with
an `uncall`; only `reset` gives a task `MainFunc`.  `switch_correct_iff` says which switches
go where they should.
-/

namespace CppServerFramework.Async

def FiberAction.leaves : FiberAction → Bool
  | .yieldToReady | .yieldToHold | .finish | .throw => true
  | _ => false

/-- The discipline of a switch from `s` to `t`: no entry function runs on behind its final
    switch, and control that leaves a fiber resumes at the point saved by the most recent
    `swapIn` or `call` into it. -/
def SwitchCorrect (s : Thread) (a : FiberAction) (t : Thread) : Prop :=
  t.control.isPast = false ∧ (a.leaves = true → t.control = s.entered s.current)

/-- The condition on a step: on the caller thread the root fiber neither yields nor ends, and
    a fiber that ends has been reset since it was built; the idle fiber is not swapped in when
    it has ended with an exception. -/
def FiberGuard (s : Thread) : FiberAction → Prop
  | .yieldToReady | .yieldToHold => s.caller = false ∨ s.current ≠ .root
  | .finish | .throw => s.caller = false ∨ (s.current ≠ .root ∧
      (s.fibers s.current).bind Fiber.entry = some .mainFunc)
  | .swapInIdle => (s.fibers .idle).map Fiber.state ≠ some .except
  | _ => True

/-- Neither of the two fibers that can be the main fiber. -/
def Ctx.Sub (c : Ctx) : Prop := c ≠ .thread ∧ c ≠ .root

/-- What guarded runs keep.  A fiber that waits to be swapped in is saved inside its own code;
    while a fiber runs, the main fiber is saved where that fiber was swapped in, and on the
    caller thread the thread fiber where the root fiber was called. -/
structure Thread.Inv (s : Thread) : Prop where
  inside : s.control.Inside s.current
  thread : ∃ f, s.fibers .thread = some f ∧
    (s.caller = true → s.current ≠ .thread → f.ctx.Inside .thread)
  root : s.caller = true → ∃ f, s.fibers .root = some f ∧ f.entry = some .mainFunc ∧
    (s.current = .thread → f.ctx.Inside .root) ∧
    (s.current ≠ .thread → (s.entered .root).Inside .thread)
  noRoot : s.caller = false → s.current ≠ .root ∧ s.fibers .root = none
  parked : ∀ c f, c.Sub → s.fibers c = some f → s.current ≠ c →
    (f.state = .except → f.ctx = .past c) ∧
    (f.state ≠ .term → f.state ≠ .except → f.ctx.Inside c)
  running : s.current.Sub → ∃ f m, s.fibers s.current = some f ∧ f.state = .exec ∧
    s.fibers s.mainFiber = some m ∧ m.ctx = s.entered s.current ∧ m.ctx.Inside s.mainFiber

/-! ## Points and contexts -/

theorem Point.Inside.not_past {p : Point} {c : Ctx} (h : p.Inside c) : p.isPast = false := by
  rcases h with rfl | ⟨n, rfl⟩ <;> rfl

theorem Point.Inside.unique {p : Point} {c d : Ctx} (hc : p.Inside c) (hd : p.Inside d) :
    c = d := by
  rcases hc with rfl | ⟨n, rfl⟩ <;> rcases hd with h | ⟨m, h⟩ <;> cases h <;> rfl

theorem Thread.here_inside (s : Thread) : s.here.Inside s.current := Or.inr ⟨_, rfl⟩

theorem Thread.mainFiber_caller {s : Thread} (h : s.caller = true) : s.mainFiber = .root :=
  if_pos h

theorem Thread.mainFiber_worker {s : Thread} (h : s.caller = false) : s.mainFiber = .thread := by
  rw [Thread.mainFiber, h]
  rfl

theorem Ctx.Sub.ne_mainFiber {s : Thread} {c : Ctx} (h : c.Sub) : c ≠ s.mainFiber := by
  cases hcaller : s.caller with
  | true => rw [Thread.mainFiber_caller hcaller]; exact h.2
  | false => rw [Thread.mainFiber_worker hcaller]; exact h.1

theorem Ctx.sub_task (i : Nat) : (Ctx.task i).Sub := ⟨by simp, by simp⟩

theorem Ctx.sub_idle : Ctx.idle.Sub := ⟨by simp, by simp⟩

/-! ## Switches -/

namespace Thread

/-- The fibers after `save` has been given the point `here`. -/
def saved (s : Thread) (save : Ctx) (here : Point) : Ctx → Option Fiber :=
  Function.update s.fibers save ((s.fibers save).map fun f => { f with ctx := here })

theorem swapcontext_of_ne {s : Thread} {save load : Ctx} {here : Point} {f : Fiber}
    (hne : load ≠ save) (h : s.fibers load = some f) :
    s.swapcontext save load here = some { s with
      fibers := s.saved save here
      control := f.ctx
      switches := s.switches + 1 } := by
  simp [swapcontext, modify, saved, Function.update_of_ne hne, h]

theorem swapcontext_self {s : Thread} {c : Ctx} {here : Point} {f : Fiber}
    (h : s.fibers c = some f) :
    s.swapcontext c c here = some { s with
      fibers := s.saved c here
      control := here
      switches := s.switches + 1 } := by
  simp [swapcontext, modify, saved, h]

/-- The main fiber exists. -/
theorem Inv.mainFiber {s : Thread} (h : s.Inv) : ∃ m, s.fibers s.mainFiber = some m := by
  cases hcaller : s.caller with
  | true =>
    obtain ⟨f, hf, -⟩ := h.root hcaller
    exact ⟨f, by rw [mainFiber_caller hcaller, hf]⟩
  | false =>
    obtain ⟨f, hf, -⟩ := h.thread
    exact ⟨f, by rw [mainFiber_worker hcaller, hf]⟩

/-- A fiber that is running is a worker's, or not the root fiber, or leaves from the root. -/
theorem Inv.sub_of_inFiber {s : Thread} (h : s.Inv) (hin : s.inFiber = true)
    (hroot : s.caller = false ∨ s.current ≠ .root) : s.current.Sub := by
  have hthread : s.current ≠ .thread := by simpa [inFiber] using hin
  rcases hroot with hcaller | hroot
  · exact ⟨hthread, (h.noRoot hcaller).1⟩
  · exact ⟨hthread, hroot⟩

/-- The state after a fiber `c` that is not the main fiber has been swapped in. -/
def swappedIn (s : Thread) (c : Ctx) (f m : Fiber) : Thread :=
  { s with
    fibers := Function.update (Function.update s.fibers c (some { f with state := .exec }))
      s.mainFiber (some { m with ctx := s.here })
    current := c
    control := f.ctx
    switches := s.switches + 1
    entered := Function.update s.entered c s.here }

theorem swapIn_eq {s : Thread} {c : Ctx} {f m : Fiber} (hsub : c.Sub) (hf : s.fibers c = some f)
    (hm : s.fibers s.mainFiber = some m) (hstate : f.state ≠ .exec) :
    s.swapIn c = some (s.swappedIn c f m) := by
  have hne : c ≠ s.mainFiber := hsub.ne_mainFiber
  unfold swapIn
  rw [if_neg (by simp [hf, hstate]), swapcontext_of_ne hne (f := { f with state := .exec })
    (by simp [modify, hf])]
  simp [swappedIn, saved, modify, hf, hm, Function.update_of_ne hne.symm]

/-- The state after the running fiber has left for the main fiber with its context saved at
    `p`; its other members have become those of `f`. -/
def left (s : Thread) (f m : Fiber) (p : Point) : Thread :=
  { s with
    fibers := Function.update s.fibers s.current (some { f with ctx := p })
    current := s.mainFiber
    control := m.ctx
    switches := s.switches + 1 }

theorem swapOut_eq {s : Thread} {f m : Fiber} (g : Fiber → Fiber) (p : Point)
    (hsub : s.current.Sub) (hf : s.fibers s.current = some f)
    (hm : s.fibers s.mainFiber = some m) :
    (s.modify s.current g).swapOut s.current p = some (s.left (g f) m p) := by
  have hne : s.current ≠ s.mainFiber := hsub.ne_mainFiber
  have hmain : (s.modify s.current g).mainFiber = s.mainFiber := rfl
  unfold swapOut
  rw [hmain, swapcontext_of_ne hne.symm (f := m)
    ((Function.update_of_ne hne.symm _ _).trans hm)]
  simp [left, saved, modify, hf]

theorem yield_eq {s : Thread} {f m : Fiber} (ready : Bool) (hsub : s.current.Sub)
    (hf : s.fibers s.current = some f) (hm : s.fibers s.mainFiber = some m) :
    s.yield ready = some (s.left (if ready then { f with state := .ready } else f) m s.here) :=
  swapOut_eq _ _ hsub hf hm

/-- A fiber with `MainFunc`, or any fiber on a worker thread, ends at the main fiber. -/
theorem leave_eq {s : Thread} {f m : Fiber} {e : Entry} (st : FiberState) (hsub : s.current.Sub)
    (hf : s.fibers s.current = some f) (hm : s.fibers s.mainFiber = some m)
    (he : f.entry = some e) (hexit : s.caller = false ∨ e = .mainFunc) :
    s.leave st = some (s.left { f with state := st } m (.past s.current)) := by
  rw [← swapOut_eq (fun f => { f with state := st }) (.past s.current) hsub hf hm]
  unfold leave
  rw [hf]
  simp only [he, Option.bind_eq_bind, Option.bind_some]
  cases e with
  | mainFunc => rfl
  | mainFuncCaller =>
    have hcaller : s.caller = false := hexit.resolve_right (by simp)
    have hmain : (s.modify s.current fun f => { f with state := st }).mainFiber = .thread :=
      mainFiber_worker hcaller
    simp only [uncall, swapOut, hmain]

/-- The loop of `run` may go on after a fiber has left for it. -/
theorem Inv.left {s : Thread} (h : s.Inv) (hsub : s.current.Sub) {f m : Fiber}
    (hm : s.fibers s.mainFiber = some m) {p : Point}
    (hexcept : f.state = .except → p = .past s.current)
    (hlive : f.state ≠ .term → f.state ≠ .except → p.Inside s.current) :
    (s.left f m p).Inv ∧ (s.left f m p).control = s.entered s.current := by
  obtain ⟨-, m', -, -, hm', hctx, hinside⟩ := h.running hsub
  rw [hm] at hm'
  cases hm'
  refine ⟨⟨hinside, ?_, ?_, ?_, ?_, ?_⟩, hctx⟩
  · obtain ⟨g, hg, hsaved⟩ := h.thread
    refine ⟨g, (Function.update_of_ne hsub.1.symm _ _).trans hg, fun hcaller _ => ?_⟩
    exact hsaved hcaller hsub.1
  · intro hcaller
    obtain ⟨g, hg, hentry, -, hcalled⟩ := h.root hcaller
    refine ⟨g, (Function.update_of_ne hsub.2.symm _ _).trans hg, hentry, fun hthread => ?_,
      fun _ => hcalled hsub.1⟩
    have hmain : s.mainFiber = .root := mainFiber_caller hcaller
    cases hmain.symm.trans hthread
  · intro hcaller
    exact ⟨(mainFiber_worker hcaller).trans_ne (by simp),
      (Function.update_of_ne hsub.2.symm _ _).trans (h.noRoot hcaller).2⟩
  · intro c g hc hg _
    by_cases hcur : c = s.current
    · subst hcur
      simp only [Thread.left, Function.update_self, Option.some.injEq] at hg
      subst hg
      exact ⟨hexcept, hlive⟩
    · exact h.parked c g hc ((Function.update_of_ne hcur _ _).symm.trans hg) (Ne.symm hcur)
  · intro hmain
    exact absurd rfl hmain.ne_mainFiber

/-- A fiber saved inside its own code may be swapped in. -/
theorem Inv.swappedIn {s : Thread} (h : s.Inv) (hrun : s.current = s.mainFiber) {c : Ctx}
    {f m : Fiber} (hsub : c.Sub) (hm : s.fibers s.mainFiber = some m)
    (hctx : f.ctx.Inside c) : (s.swappedIn c f m).Inv := by
  have hne : c ≠ s.mainFiber := hsub.ne_mainFiber
  have hhere : s.here.Inside s.mainFiber := hrun ▸ s.here_inside
  refine ⟨hctx, ?_, ?_, ?_, ?_, ?_⟩
  · cases hcaller : s.caller with
    | true =>
      obtain ⟨g, hg, hsaved⟩ := h.thread
      refine ⟨g, ?_, fun _ _ => hsaved hcaller (by rw [hrun, mainFiber_caller hcaller]; simp)⟩
      simp only [Thread.swappedIn, mainFiber_caller hcaller]
      rw [Function.update_of_ne (by simp), Function.update_of_ne hsub.1.symm, hg]
    | false =>
      refine ⟨{ m with ctx := s.here }, ?_, fun hc => ?_⟩
      · simp only [Thread.swappedIn, mainFiber_worker hcaller, Function.update_self]
      · exact absurd (hcaller.symm.trans hc) (by simp)
  · intro hcaller
    have hmain : s.mainFiber = .root := mainFiber_caller hcaller
    obtain ⟨g, hg, hentry, -, hcalled⟩ := h.root hcaller
    have hgm : g = m := by
      rw [hmain, hg] at hm
      exact Option.some.inj hm
    refine ⟨{ m with ctx := s.here }, ?_, hgm ▸ hentry, fun hthread => absurd hthread hsub.1,
      fun _ => ?_⟩
    · simp only [Thread.swappedIn, hmain, Function.update_self]
    · simp only [Thread.swappedIn]
      rw [Function.update_of_ne hsub.2.symm]
      exact hcalled (by rw [hrun, hmain]; simp)
  · intro hcaller
    have hmain : s.mainFiber = .thread := mainFiber_worker hcaller
    refine ⟨hsub.2, ?_⟩
    simp only [Thread.swappedIn, hmain]
    rw [Function.update_of_ne (by simp), Function.update_of_ne hsub.2.symm]
    exact (h.noRoot hcaller).2
  · intro d g hd hg hdc
    simp only [Thread.swappedIn] at hg hdc
    rw [Function.update_of_ne hd.ne_mainFiber, Function.update_of_ne (Ne.symm hdc)] at hg
    exact h.parked d g hd hg (by rw [hrun]; exact hd.ne_mainFiber.symm)
  · intro _
    refine ⟨{ f with state := .exec }, { m with ctx := s.here }, ?_, rfl, ?_, ?_, hhere⟩
    · simp only [Thread.swappedIn]
      rw [Function.update_of_ne hne, Function.update_self]
    · exact Function.update_self _ _ _
    · exact (Function.update_self c s.here s.entered).symm

/-- The fibers that are not running may be created, reset or put on hold, as long as they stay
    saved inside their own code. -/
theorem Inv.update {s : Thread} (h : s.Inv) {c : Ctx} (hsub : c.Sub) (hcur : s.current ≠ c)
    {f : Fiber} (hexcept : f.state ≠ .except)
    (hctx : f.state ≠ .term → f.ctx.Inside c) :
    ({ s with fibers := Function.update s.fibers c (some f) } : Thread).Inv := by
  refine ⟨h.inside, ?_, ?_, ?_, ?_, ?_⟩
  · obtain ⟨g, hg, hsaved⟩ := h.thread
    exact ⟨g, (Function.update_of_ne hsub.1.symm _ _).trans hg, hsaved⟩
  · intro hcaller
    obtain ⟨g, hg, hrest⟩ := h.root hcaller
    exact ⟨g, (Function.update_of_ne hsub.2.symm _ _).trans hg, hrest⟩
  · intro hcaller
    exact ⟨(h.noRoot hcaller).1,
      (Function.update_of_ne hsub.2.symm _ _).trans (h.noRoot hcaller).2⟩
  · intro d g hd hg hdcur
    by_cases hdc : d = c
    · subst hdc
      simp only [Function.update_self, Option.some.injEq] at hg
      subst hg
      exact ⟨fun he => absurd he hexcept, fun ht _ => hctx ht⟩
    · exact h.parked d g hd ((Function.update_of_ne hdc _ _).symm.trans hg) hdcur
  · intro hrun
    obtain ⟨g, m, hg, hstate, hm, hrest⟩ := h.running hrun
    exact ⟨g, m, (Function.update_of_ne hcur _ _).trans hg, hstate,
      (Function.update_of_ne hsub.ne_mainFiber.symm _ _).trans hm, hrest⟩

/-- The state after `stop` has called the root fiber `f`, from the thread fiber `g`. -/
def called (s : Thread) (f g : Fiber) : Thread :=
  { s with
    fibers := Function.update (Function.update s.fibers .root (some { f with state := .exec }))
      .thread (some { g with ctx := s.here })
    current := .root
    control := f.ctx
    switches := s.switches + 1
    entered := Function.update s.entered .root s.here }

theorem call_eq {s : Thread} {f g : Fiber} (hf : s.fibers .root = some f)
    (hg : s.fibers .thread = some g) : s.call .root = some (s.called f g) := by
  unfold call
  rw [swapcontext_of_ne (by simp) (f := { f with state := .exec }) (by simp [modify, hf])]
  simp [called, saved, modify, hf, hg]

theorem Inv.called {s : Thread} (h : s.Inv) (hcaller : s.caller = true)
    (hcur : s.current = .thread) {f g : Fiber} (hf : s.fibers .root = some f) :
    (s.called f g).Inv := by
  obtain ⟨f', hf', hentry, hready, -⟩ := h.root hcaller
  rw [hf] at hf'
  cases hf'
  have hhere : s.here.Inside .thread := hcur ▸ s.here_inside
  refine ⟨hready hcur, ⟨{ g with ctx := s.here }, ?_, fun _ _ => hhere⟩, fun _ => ?_,
    fun hworker => ?_, ?_, fun hsub => absurd rfl hsub.2⟩
  · simp only [Thread.called, Function.update_self]
  · refine ⟨{ f with state := .exec }, ?_, hentry, fun hthread => ?_, fun _ => ?_⟩
    · simp only [Thread.called]
      rw [Function.update_of_ne (by simp), Function.update_self]
    · cases hthread
    · simp only [Thread.called, Function.update_self]
      exact hhere
  · cases hcaller.symm.trans hworker
  · intro d k hd hk _
    simp only [Thread.called] at hk
    rw [Function.update_of_ne hd.1, Function.update_of_ne hd.2] at hk
    exact h.parked d k hd hk (hcur ▸ hd.1.symm)

/-! ## Steps -/

theorem Inv.initial (caller : Bool) : (Thread.initial caller).Inv := by
  refine ⟨Or.inl rfl, ⟨_, rfl, fun _ hne => absurd rfl hne⟩, ?_, ?_, ?_,
    fun hsub => absurd rfl hsub.1⟩
  · intro hcaller
    have hcaller' : caller = true := hcaller
    subst hcaller'
    exact ⟨_, rfl, rfl, fun _ => Or.inl rfl, fun hne => absurd rfl hne⟩
  · intro hcaller
    have hcaller' : caller = false := hcaller
    subst hcaller'
    exact ⟨by simp [Thread.initial], rfl⟩
  · intro c f hsub hf _
    cases c with
    | thread => exact absurd rfl hsub.1
    | root => exact absurd rfl hsub.2
    | idle =>
      cases hf
      exact ⟨fun he => (by cases he), fun _ _ => Or.inl rfl⟩
    | task i => cases hf

/-- Swapping in a fiber that has not ended. -/
theorem Inv.swapIn {s t : Thread} (h : s.Inv) (hrun : s.inRun = true) {c : Ctx} (hsub : c.Sub)
    {f : Fiber} (hf : s.fibers c = some f) (hterm : f.state ≠ .term) (hexcept : f.state ≠ .except)
    (hs : s.swapIn c = some t) : t.Inv ∧ t.control.isPast = false := by
  have hcur : s.current = s.mainFiber := by simpa [inRun] using hrun
  obtain ⟨m, hm⟩ := h.mainFiber
  have hctx := (h.parked c f hsub hf (hcur ▸ hsub.ne_mainFiber.symm)).2 hterm hexcept
  by_cases hexec : f.state = .exec
  · rw [Thread.swapIn, if_pos (by simp [hf, hexec])] at hs
    cases hs
  · rw [swapIn_eq hsub hf hm hexec] at hs
    cases hs
    exact ⟨h.swappedIn hcur hsub hm hctx, hctx.not_past⟩

/-- Leaving for the main fiber. -/
theorem Inv.yield {s t : Thread} (h : s.Inv) (hsub : s.current.Sub) {ready : Bool}
    (hs : s.yield ready = some t) :
    t.Inv ∧ t.control.isPast = false ∧ t.control = s.entered s.current := by
  obtain ⟨f, m, hf, hexec, hm, hctx, hinside⟩ := h.running hsub
  rw [yield_eq ready hsub hf hm] at hs
  cases hs
  have hst : (if ready then { f with state := .ready } else f).state ≠ .except := by
    cases ready <;> simp [hexec]
  obtain ⟨hinv, hcontrol⟩ := h.left hsub (f := if ready then { f with state := .ready } else f) hm
    (fun he => absurd he hst) (fun _ _ => s.here_inside)
  exact ⟨hinv, hinside.not_past, hcontrol⟩

theorem Inv.leave {s t : Thread} (h : s.Inv) (hsub : s.current.Sub)
    (hexit : s.caller = false ∨ (s.fibers s.current).bind Fiber.entry = some .mainFunc)
    {st : FiberState} (hst : st = .term ∨ st = .except) (hs : s.leave st = some t) :
    t.Inv ∧ t.control.isPast = false ∧ t.control = s.entered s.current := by
  obtain ⟨f, m, hf, -, hm, hctx, hinside⟩ := h.running hsub
  cases he : f.entry with
  | none =>
    rw [Thread.leave, hf] at hs
    simp [he] at hs
  | some e =>
    have hexit' : s.caller = false ∨ e = .mainFunc := by simpa [hf, he] using hexit
    rw [leave_eq st hsub hf hm he hexit'] at hs
    cases hs
    obtain ⟨hinv, hcontrol⟩ := h.left hsub (f := { f with state := st }) hm
      (p := .past s.current) (fun _ => rfl) (fun hterm hexcept => by
        rcases hst with rfl | rfl
        · exact absurd rfl hterm
        · exact absurd rfl hexcept)
    exact ⟨hinv, hinside.not_past, hcontrol⟩

/-- The root fiber is its own main fiber: a `swapOut` from it goes nowhere. -/
theorem Inv.root_swapOut {s : Thread} (h : s.Inv) (hcaller : s.caller = true)
    (hcur : s.current = .root) (g : Fiber → Fiber) {p : Point} {t : Thread}
    (hs : (s.modify s.current g).swapOut s.current p = some t) : t.control = p := by
  have hmain : (s.modify s.current g).mainFiber = s.current :=
    (mainFiber_caller hcaller).trans hcur.symm
  obtain ⟨f, hf, -⟩ := h.root hcaller
  rw [swapOut, hmain, swapcontext_self (f := g f) (by simp [modify, hcur, hf])] at hs
  cases hs
  rfl

theorem Inv.root_not_yield {s t : Thread} (h : s.Inv) {ready : Bool}
    (hs : s.yield ready = some t) (hok : t.control = s.entered s.current) :
    s.caller = false ∨ s.current ≠ .root := by
  cases hcaller : s.caller with
  | false => exact Or.inl rfl
  | true =>
    refine Or.inr fun hcur => ?_
    obtain ⟨-, -, -, -, hentered⟩ := h.root hcaller
    have hin : s.here.Inside .thread := by
      rw [← h.root_swapOut hcaller hcur _ hs, hok, hcur]
      exact hentered (by rw [hcur]; simp)
    cases (s.here_inside.unique hin).symm.trans hcur

/-- A fiber that ends with an `uncall` on the caller thread resumes in the thread fiber, which
    is not where it was swapped in. -/
theorem Inv.leave_only_reset {s t : Thread} (h : s.Inv) (hin : s.inFiber = true)
    {st : FiberState} (hs : s.leave st = some t) (hpast : t.control.isPast = false)
    (hok : t.control = s.entered s.current) :
    s.caller = false ∨ (s.current ≠ .root ∧
      (s.fibers s.current).bind Fiber.entry = some .mainFunc) := by
  cases hcaller : s.caller with
  | false => exact Or.inl rfl
  | true =>
    have hthread : s.current ≠ .thread := by simpa [inFiber] using hin
    obtain ⟨f, hf, hs⟩ := Option.bind_eq_some_iff.mp hs
    obtain ⟨e, he, hs⟩ := Option.bind_eq_some_iff.mp hs
    refine Or.inr ⟨fun hcur => ?_, ?_⟩
    · -- the root fiber has `MainFunc` and resumes behind its own final switch
      obtain ⟨r, hr, hentry, -⟩ := h.root hcaller
      rw [hcur, hr] at hf
      cases hf
      cases he.symm.trans hentry
      rw [h.root_swapOut hcaller hcur _ hs] at hpast
      cases hpast
    · cases e with
      | mainFunc => rw [hf]; exact he
      | mainFuncCaller =>
        by_cases hroot : s.current = .root
        · obtain ⟨r, hr, hentry, -⟩ := h.root hcaller
          rw [hroot, hr] at hf
          cases hf
          cases he.symm.trans hentry
        · obtain ⟨-, m, -, -, hm, hctx, hinside⟩ := h.running ⟨hthread, hroot⟩
          obtain ⟨g, hg, hsaved⟩ := h.thread
          simp only [uncall] at hs
          rw [swapcontext_of_ne hthread.symm (f := g)
            ((Function.update_of_ne hthread.symm _ _).trans hg)] at hs
          cases hs
          have hin' : g.ctx.Inside s.mainFiber := by
            rw [show g.ctx = s.entered s.current from hok, ← hctx]
            exact hinside
          cases ((hsaved hcaller hthread).unique hin').trans (mainFiber_caller hcaller)

end Thread

/-- A step that meets the guard is correct and keeps the invariant. -/
theorem switch_of_guard {s t : Thread} (h : s.Inv) {a : FiberAction} (hg : FiberGuard s a)
    (hs : s.step a = some t) : t.Inv ∧ SwitchCorrect s a t := by
  have hlive : s.control.isPast = false := h.inside.not_past
  unfold Thread.step at hs
  rw [if_neg (by simp [hlive])] at hs
  cases a with
  | create i =>
    simp only [Option.ite_none_right_eq_some, Option.some.injEq] at hs
    obtain ⟨hfree, rfl⟩ := hs
    have hcur : s.current ≠ .task i := by
      intro hcur
      obtain ⟨f, -, hf, -⟩ := h.running (hcur ▸ Ctx.sub_task i)
      rw [hcur, hfree] at hf
      cases hf
    exact ⟨h.update (Ctx.sub_task i) hcur (by simp [Fiber.new]) fun _ => Or.inl rfl, hlive,
      by simp [FiberAction.leaves]⟩
  | reset i =>
    obtain ⟨f, hf, hs⟩ := Option.bind_eq_some_iff.mp hs
    obtain ⟨g, hreset, hs⟩ := Option.bind_eq_some_iff.mp hs
    cases hs
    simp only [Fiber.reset, Option.ite_none_right_eq_some, Option.some.injEq] at hreset
    obtain ⟨hstate, rfl⟩ := hreset
    have hcur : s.current ≠ .task i := by
      intro hcur
      obtain ⟨f', -, hf', hexec, -⟩ := h.running (hcur ▸ Ctx.sub_task i)
      rw [hcur, hf] at hf'
      cases hf'
      simp [hexec] at hstate
    exact ⟨h.update (Ctx.sub_task i) hcur (by simp) fun _ => Or.inl rfl, hlive,
      by simp [FiberAction.leaves]⟩
  | swapIn i =>
    obtain ⟨f, hf, hs⟩ := Option.bind_eq_some_iff.mp hs
    simp only [Option.ite_none_right_eq_some] at hs
    obtain ⟨⟨hrun, hterm, hexcept⟩, hs⟩ := hs
    obtain ⟨hinv, hpast⟩ := h.swapIn hrun (Ctx.sub_task i) hf hterm hexcept hs
    exact ⟨hinv, hpast, by simp [FiberAction.leaves]⟩
  | swapInIdle =>
    obtain ⟨f, hf, hs⟩ := Option.bind_eq_some_iff.mp hs
    simp only [Option.ite_none_right_eq_some] at hs
    obtain ⟨⟨hrun, hterm⟩, hs⟩ := hs
    have hexcept : f.state ≠ .except := by simpa [FiberGuard, hf] using hg
    obtain ⟨hinv, hpast⟩ := h.swapIn hrun Ctx.sub_idle hf hterm hexcept hs
    exact ⟨hinv, hpast, by simp [FiberAction.leaves]⟩
  | setHold c =>
    obtain ⟨f, hf, hs⟩ := Option.bind_eq_some_iff.mp hs
    simp only [Option.ite_none_right_eq_some, Option.some.injEq] at hs
    obtain ⟨⟨hrun, hcur, hexec, hthread⟩, rfl⟩ := hs
    have hmain : s.current = s.mainFiber := by simpa [Thread.inRun] using hrun
    have hsub : c.Sub := by
      refine ⟨hthread, fun hroot => ?_⟩
      subst hroot
      cases hcaller : s.caller with
      | true => exact hcur (hmain.trans (Thread.mainFiber_caller hcaller)).symm
      | false => cases hf.symm.trans (h.noRoot hcaller).2
    have hctx := (h.parked c f hsub hf (Ne.symm hcur)).2 (by simp [hexec]) (by simp [hexec])
    rw [Thread.modify, hf]
    exact ⟨h.update hsub (Ne.symm hcur) (by simp) fun _ => hctx, hlive,
      by simp [FiberAction.leaves]⟩
  | call =>
    simp only [Option.ite_none_right_eq_some] at hs
    obtain ⟨⟨hcaller, hcur⟩, hs⟩ := hs
    obtain ⟨f, hf, -, hready, -⟩ := h.root hcaller
    obtain ⟨g, hg, -⟩ := h.thread
    rw [Thread.call_eq hf hg] at hs
    cases hs
    exact ⟨h.called hcaller hcur hf, (hready hcur).not_past, by simp [FiberAction.leaves]⟩
  | yieldToReady =>
    simp only [Option.ite_none_right_eq_some] at hs
    obtain ⟨hinv, hpast, hcontrol⟩ := h.yield (h.sub_of_inFiber hs.1 hg) hs.2
    exact ⟨hinv, hpast, fun _ => hcontrol⟩
  | yieldToHold =>
    simp only [Option.ite_none_right_eq_some] at hs
    obtain ⟨hinv, hpast, hcontrol⟩ := h.yield (h.sub_of_inFiber hs.1 hg) hs.2
    exact ⟨hinv, hpast, fun _ => hcontrol⟩
  | finish =>
    simp only [Option.ite_none_right_eq_some] at hs
    obtain ⟨hinv, hpast, hcontrol⟩ := h.leave (h.sub_of_inFiber hs.1 (hg.imp_right And.left))
      (hg.imp_right And.right) (Or.inl rfl) hs.2
    exact ⟨hinv, hpast, fun _ => hcontrol⟩
  | throw =>
    simp only [Option.ite_none_right_eq_some] at hs
    obtain ⟨hinv, hpast, hcontrol⟩ := h.leave (h.sub_of_inFiber hs.1 (hg.imp_right And.left))
      (hg.imp_right And.right) (Or.inr rfl) hs.2
    exact ⟨hinv, hpast, fun _ => hcontrol⟩

/-- A step that does not meet the guard is not correct. -/
theorem guard_of_switch {s t : Thread} (h : s.Inv) {a : FiberAction} (hs : s.step a = some t)
    (hok : SwitchCorrect s a t) : FiberGuard s a := by
  have hlive : s.control.isPast = false := h.inside.not_past
  unfold Thread.step at hs
  rw [if_neg (by simp [hlive])] at hs
  cases a with
  | create | reset | swapIn | setHold | call => trivial
  | swapInIdle =>
    intro hexcept
    obtain ⟨f, hf, hs⟩ := Option.bind_eq_some_iff.mp hs
    simp only [Option.ite_none_right_eq_some] at hs
    obtain ⟨⟨hrun, -⟩, hs⟩ := hs
    have hmain : s.current = s.mainFiber := by simpa [Thread.inRun] using hrun
    have hstate : f.state = .except := by simpa [hf] using hexcept
    obtain ⟨m, hm⟩ := h.mainFiber
    have hpast := (h.parked .idle f Ctx.sub_idle hf
      (hmain ▸ Ctx.sub_idle.ne_mainFiber.symm)).1 hstate
    rw [Thread.swapIn_eq Ctx.sub_idle hf hm (by simp [hstate])] at hs
    cases hs
    have hnot := hok.1
    simp [Thread.swappedIn, hpast, Point.isPast] at hnot
  | yieldToReady =>
    simp only [Option.ite_none_right_eq_some] at hs
    exact h.root_not_yield hs.2 (hok.2 rfl)
  | yieldToHold =>
    simp only [Option.ite_none_right_eq_some] at hs
    exact h.root_not_yield hs.2 (hok.2 rfl)
  | finish =>
    simp only [Option.ite_none_right_eq_some] at hs
    exact h.leave_only_reset hs.1 hs.2 hok.1 (hok.2 rfl)
  | throw =>
    simp only [Option.ite_none_right_eq_some] at hs
    exact h.leave_only_reset hs.1 hs.2 hok.1 (hok.2 rfl)

/-! ## Guarded runs -/

theorem Thread.inv_of_reach {caller : Bool} {s : Thread}
    (h : (fiberMachine caller).Reach FiberGuard s) : s.Inv := by
  refine h.invariant ?_ ?_
  · rintro s rfl
    exact Thread.Inv.initial caller
  · intro s a t hs hg hstep
    exact (switch_of_guard hs hg hstep).1

/-- On either kind of thread, in every state of a guarded run, no fiber has run past its final
    switch, and the steps that keep the discipline are those that meet the guard. -/
theorem switch_correct_iff {caller : Bool} {s : Thread}
    (h : (fiberMachine caller).Reach FiberGuard s) :
    s.control.isPast = false ∧
    ∀ a t, s.step a = some t → (SwitchCorrect s a t ↔ FiberGuard s a) := by
  have hinv := Thread.inv_of_reach h
  exact ⟨hinv.inside.not_past, fun a t hs =>
    ⟨guard_of_switch hinv hs, fun hg => (switch_of_guard hinv hg hs).2⟩⟩

/-- A worker thread running its first task. -/
def workerTask : Thread :=
  ((fiberMachine false).run (Thread.initial false) [.create 0, .swapIn 0]).getD
    (Thread.initial false)

theorem switch_correct_workerTask :
    ∃ t, workerTask.step .finish = some t ∧ SwitchCorrect workerTask .finish t := by
  have hreach : (fiberMachine false).Reach FiberGuard workerTask :=
    .of_run [FiberAction.create 0, .swapIn 0] (.init (s := Thread.initial false) rfl)
      ⟨trivial, fun _ _ => ⟨trivial, fun _ _ => trivial⟩⟩ rfl
  exact ⟨_, rfl, ((switch_correct_iff hreach).2 .finish _ rfl).mpr (Or.inl rfl)⟩

/-- The caller thread running its first task, which ends with an `uncall`: control resumes in
    `stop`, where the root fiber was called, not behind the `swapIn`. -/
def callerTask : Thread :=
  ((fiberMachine true).run (Thread.initial true) [.call, .create 0, .swapIn 0]).getD
    (Thread.initial true)

theorem caller_task_leaves_for_thread :
    ¬ ∀ caller s, (fiberMachine caller).Reachable s → ∀ a t, s.step a = some t →
      SwitchCorrect s a t := by
  intro h
  have hreach : (fiberMachine true).Reachable callerTask :=
    .of_run [.call, .create 0, .swapIn 0] (s := Thread.initial true) rfl rfl
  have hwrong := (h true _ hreach .finish _ rfl).2 rfl
  exact absurd hwrong (by decide)

end CppServerFramework.Async

import CppServerFramework.Misc.Machine
import Mathlib.Logic.Function.Basic

/-!
# Starting threads

The constructor of `Multithread` (`async/multithread.cpp:25-38`) and the function `run` of the new
thread (`multithread.cpp:57-76`), which still uses the object while the constructor waits for it,
with `join`, `SetName` and the destructor.  Any number of objects are made and used at a time; an
address may be used again.  `C` are the callbacks; an empty `std::function` is `none`.
-/

universe u

namespace CppServerFramework.Async

/-- How far the constructor of an object is. -/
inductive ThreadStage where
  | creating
  | waiting
  | built
  deriving DecidableEq, Repr

/-- `Multithread` (`multithread.h:246-255`); a thread is known by its number, and `m_thread` is that
    of the thread until it is joined. -/
structure ThreadObject (C : Type u) where
  id : Option Nat := none
  thread : Option Nat := none
  cb : Option C
  name : String
  semaphore : Nat := 0
  stage : ThreadStage := .creating

/-- Where `run` stands: what it is about to do next. -/
inductive RunPhase where
  /-- to set `t_thread` and `t_thread_name` -/
  | begins
  /-- to set `m_id` -/
  | named
  /-- to swap the callback out of the object -/
  | identified
  /-- to call `notify` -/
  | swapped
  /-- to call the callback -/
  | calling
  | ended
  deriving DecidableEq, Repr

/-- A thread in `run`: its argument, the callback that the constructor was given, `t_thread`,
    `t_thread_name` and its own `cb`. -/
structure KernelThread (C : Type u) where
  arg : Nat
  given : Option C
  phase : RunPhase := .begins
  current : Option Nat := none
  currentName : String := "UNKNOWN"
  cb : Option C := none

/-- `ran` records the callbacks that have been called, each with its thread; `emptyCall` is whether
    an empty one was. -/
structure ThreadSystem (C : Type u) where
  objects : Nat → Option (ThreadObject C) := fun _ => none
  threads : Nat → Option (KernelThread C) := fun _ => none
  ran : List (Nat × C) := []
  emptyCall : Bool := false
  useAfterFree : Bool := false

inductive ThreadAction (C : Type u) where
  | construct (addr : Nat) (cb : Option C) (name : String)
  /-- `pthread_create` makes a thread, or fails -/
  | create (addr : Nat) (answer : Option Nat)
  | wait (addr : Nat)
  /-- `sem_wait` fails in the constructor, as when a signal comes -/
  | waitFails (addr : Nat)
  | run (tid : Nat)
  | setName (tid : Nat) (name : String)
  | join (addr : Nat)
  /-- `pthread_join` fails, as for the thread that calls it -/
  | joinFails (addr : Nat)
  | destroy (addr : Nat)

namespace ThreadSystem

variable {C : Type u} (s : ThreadSystem C)

def writeObject (addr : Nat) (o : Option (ThreadObject C)) : ThreadSystem C :=
  { s with objects := Function.update s.objects addr o }

def writeThread (tid : Nat) (k : KernelThread C) : ThreadSystem C :=
  { s with threads := Function.update s.threads tid (some k) }

/-- `thread->…`, which goes wrong where there is no object. -/
def deref (addr : Nat) (k : ThreadObject C → ThreadSystem C) : ThreadSystem C :=
  match s.objects addr with
  | some o => k o
  | none => { s with useAfterFree := true }

/-- The next step of `run` (`multithread.cpp:57-76`). -/
def run (tid : Nat) (k : KernelThread C) : Option (ThreadSystem C) :=
  match k.phase with
  | .begins => some (s.deref k.arg fun o =>
      s.writeThread tid { k with phase := .named, current := some k.arg, currentName := o.name })
  | .named => some (s.deref k.arg fun o =>
      (s.writeObject k.arg (some { o with id := some tid })).writeThread tid
        { k with phase := .identified })
  | .identified => some (s.deref k.arg fun o =>
      (s.writeObject k.arg (some { o with cb := k.cb })).writeThread tid
        { k with phase := .swapped, cb := o.cb })
  | .swapped => some (s.deref k.arg fun o =>
      (s.writeObject k.arg (some { o with semaphore := o.semaphore + 1 })).writeThread tid
        { k with phase := .calling })
  | .calling =>
    match k.cb with
    | some c => some { s.writeThread tid { k with phase := .ended } with ran := (tid, c) :: s.ran }
    | none => some { s with emptyCall := true }
  | .ended => none

/-- `SetName` in the callback (`multithread.cpp:18-23`). -/
def setName (tid : Nat) (k : KernelThread C) (name : String) : Option (ThreadSystem C) :=
  if k.phase = .calling then
    match k.current with
    | some addr => some (s.deref addr fun o =>
        (s.writeObject addr (some { o with name })).writeThread tid { k with currentName := name })
    | none => some (s.writeThread tid { k with currentName := name })
  else none

def step : ThreadAction C → Option (ThreadSystem C)
  | .construct addr cb name =>
    if (s.objects addr).isNone then
      some (s.writeObject addr
        (some { cb, name := if name.isEmpty then "UNKNOWN" else name }))
    else none
  | .create addr answer =>
    match s.objects addr with
    | some o =>
      match o.stage, answer with
      | .creating, none => some (s.writeObject addr none)
      | .creating, some tid =>
        if (s.threads tid).isNone then
          some ((s.writeObject addr (some { o with thread := some tid, stage := .waiting }))
            |>.writeThread tid { arg := addr, given := o.cb })
        else none
      | _, _ => none
    | none => none
  | .wait addr =>
    match s.objects addr with
    | some o =>
      if o.stage = .waiting ∧ 0 < o.semaphore then
        some (s.writeObject addr (some { o with semaphore := o.semaphore - 1, stage := .built }))
      else none
    | none => none
  | .waitFails addr =>
    -- the constructor throws, and the object is gone; the thread is not
    match s.objects addr with
    | some o => if o.stage = .waiting then some (s.writeObject addr none) else none
    | none => none
  | .run tid => (s.threads tid).bind (s.run tid)
  | .setName tid name => (s.threads tid).bind fun k => s.setName tid k name
  | .join addr =>
    match s.objects addr with
    | some o =>
      if o.stage = .built then
        match o.thread with
        | some tid =>
          if (s.threads tid).any (·.phase = .ended) then
            some (s.writeObject addr (some { o with thread := none }))
          else none
        | none => some s
      else none
    | none => none
  | .joinFails addr =>
    match s.objects addr with
    | some o => if o.stage = .built ∧ o.thread.isSome then some s else none
    | none => none
  | .destroy addr =>
    match s.objects addr with
    | some o => if o.stage = .built then some (s.writeObject addr none) else none
    | none => none

end ThreadSystem

def threadMachine (C : Type u) : Machine (ThreadSystem C) (ThreadAction C) where
  init s := s = {}
  step := ThreadSystem.step

/-! ## The handshake -/

/-- The thread has not called `notify` yet. -/
def KernelThread.inside {C : Type u} (k : KernelThread C) : Prop :=
  k.phase ≠ .calling ∧ k.phase ≠ .ended

/-- The condition on a step: no constructor is given an empty callback, its wait fails only behind
    the `notify` of its thread, and a thread calls `SetName` only while the object that it was
    started with is there. -/
def ThreadSystem.Careful {C : Type u} (s : ThreadSystem C) : ThreadAction C → Prop
  | .construct _ cb _ => cb.isSome
  | .waitFails addr => ∀ o tid k, s.objects addr = some o → o.thread = some tid →
    s.threads tid = some k → ¬k.inside
  | .setName tid _ => ∀ k, s.threads tid = some k →
    ∃ o, s.objects k.arg = some o ∧ o.id = some tid
  | _ => True

/-- What `run` has done to an object that its constructor still waits for. -/
def ThreadObject.Handed {C : Type u} (o : ThreadObject C) (tid : Nat) (k : KernelThread C) : Prop :=
  match k.phase with
  | .begins => o.semaphore = 0 ∧ o.id = none ∧ o.cb = k.given
  | .named => o.semaphore = 0 ∧ o.id = none ∧ o.cb = k.given ∧ k.currentName = o.name
  | .identified => o.semaphore = 0 ∧ o.id = some tid ∧ o.cb = k.given ∧ k.currentName = o.name
  | .swapped => o.semaphore = 0 ∧ o.id = some tid ∧ o.cb = none ∧ k.currentName = o.name
  | .calling | .ended =>
    o.semaphore = 1 ∧ o.id = some tid ∧ o.cb = none ∧ k.currentName = o.name

/-- What the thread has of its own. -/
def KernelThread.Holds {C : Type u} (k : KernelThread C) : Prop :=
  match k.phase with
  | .begins => k.cb = none
  | .named | .identified => k.cb = none ∧ k.current = some k.arg
  | .swapped | .calling | .ended => k.cb = k.given ∧ k.current = some k.arg

namespace ThreadSystem

variable {C : Type u} {s s' : ThreadSystem C} {addr tid : Nat} {o : ThreadObject C}
  {k : KernelThread C}

/-- `o` is an object at `addr`, as far as its constructor is. -/
def ObjectOk (s : ThreadSystem C) (addr : Nat) (o : ThreadObject C) : Prop :=
  match o.stage with
  | .creating => o.thread = none ∧ o.semaphore = 0 ∧ o.id = none ∧ o.cb.isSome
  | .waiting => ∃ tid k, s.threads tid = some k ∧ k.arg = addr ∧ o.thread = some tid ∧
      o.Handed tid k
  | .built => ∃ tid k, s.threads tid = some k ∧ k.arg = addr ∧ ¬k.inside ∧
      (o.thread = some tid ∨ o.thread = none ∧ k.phase = .ended) ∧
      o.semaphore = 0 ∧ o.id = some tid ∧ o.cb = none ∧ k.currentName = o.name

/-- The object is one whose constructor waits for this thread. -/
def WaitsFor (o : ThreadObject C) (tid : Nat) : Prop := o.stage = .waiting ∧ o.thread = some tid

structure Inv (s : ThreadSystem C) : Prop where
  objects : ∀ addr o, s.objects addr = some o → s.ObjectOk addr o
  inside : ∀ tid k, s.threads tid = some k → k.inside →
    ∃ o, s.objects k.arg = some o ∧ WaitsFor o tid
  holds : ∀ tid k, s.threads tid = some k → k.Holds
  given : ∀ tid k, s.threads tid = some k → k.given.isSome
  ran : ∀ tid, s.ran.filter (·.1 = tid) =
    (((s.threads tid).filter (·.phase = .ended)).bind (·.given)).toList.map fun c => (tid, c)
  filled : s.emptyCall = false
  alive : s.useAfterFree = false

theorem inv_init : ({} : ThreadSystem C).Inv where
  objects _ _ h := by cases h
  inside _ _ h := by cases h
  holds _ _ h := by cases h
  given _ _ h := by cases h
  ran _ := rfl
  filled := rfl
  alive := rfl

/-! ## What a step leaves alone -/

/-- The thread that an object was made for. -/
def Owns (o : ThreadObject C) (tid : Nat) : Prop := o.thread = some tid ∨ o.id = some tid

/-- What is said of an object depends on its own thread alone. -/
theorem ObjectOk.mono (h : s.ObjectOk addr o)
    (hthreads : ∀ tid k, s.threads tid = some k → k.arg = addr → Owns o tid →
      s'.threads tid = some k) : s'.ObjectOk addr o := by
  unfold ObjectOk at h ⊢
  split at h
  · exact h
  · obtain ⟨tid, k, hk, harg, hthread, hrest⟩ := h
    exact ⟨tid, k, hthreads tid k hk harg (.inl hthread), harg, hthread, hrest⟩
  · obtain ⟨tid, k, hk, harg, hin, hthread, hsem, hid, hrest⟩ := h
    exact ⟨tid, k, hthreads tid k hk harg (.inr hid), harg, hin, hthread, hsem, hid, hrest⟩

/-- A step that writes one address, and no thread. -/
theorem Inv.writeObject (h : s.Inv) {new : Option (ThreadObject C)}
    (hok : ∀ o, new = some o → s.ObjectOk addr o)
    (hinside : ∀ tid o, s.objects addr = some o → WaitsFor o tid →
      ∀ k, s.threads tid = some k → k.inside → ∃ o', new = some o' ∧ WaitsFor o' tid) :
    (s.writeObject addr new).Inv where
  objects addr' o' ho' := by
    suffices s.ObjectOk addr' o' from this.mono fun _ _ hk _ _ => hk
    simp only [ThreadSystem.writeObject, Function.update_apply] at ho'
    split at ho'
    · next heq => exact heq ▸ hok o' ho'
    · exact h.objects addr' o' ho'
  inside tid k hk hin := by
    obtain ⟨o, ho, hwaits⟩ := h.inside tid k hk hin
    simp only [ThreadSystem.writeObject, Function.update_apply]
    split
    · next heq => exact hinside tid o (heq ▸ ho) hwaits k hk hin
    · exact ⟨o, ho, hwaits⟩
  holds := h.holds
  given := h.given
  ran := h.ran
  filled := h.filled
  alive := h.alive

/-- A step of one thread, which may write at the address that it was started with. -/
theorem Inv.writeThread (h : s.Inv) {new : Option (ThreadObject C)} (ran : List (Nat × C))
    (hold : ∀ k', s.threads tid = some k' → k'.arg = k.arg)
    (hok : ∀ o, new = some o → ((s.writeObject k.arg new).writeThread tid k).ObjectOk k.arg o)
    (hothers : ∀ tid' o, tid' ≠ tid → s.objects k.arg = some o → WaitsFor o tid' →
      ∃ o', new = some o' ∧ WaitsFor o' tid')
    (hinside : k.inside → ∃ o, new = some o ∧ WaitsFor o tid) (hholds : k.Holds)
    (hgiven : k.given.isSome)
    (hran : ran.filter (·.1 = tid) =
      (((some k).filter (·.phase = .ended)).bind (·.given)).toList.map fun c => (tid, c))
    (hkept : ∀ tid', tid' ≠ tid → ran.filter (·.1 = tid') = s.ran.filter (·.1 = tid')) :
    { (s.writeObject k.arg new).writeThread tid k with ran }.Inv where
  objects addr' o' ho' := by
    suffices ((s.writeObject k.arg new).writeThread tid k).ObjectOk addr' o' from
      this.mono fun _ _ hk _ _ => hk
    simp only [ThreadSystem.writeThread, ThreadSystem.writeObject, Function.update_apply] at ho'
    split at ho'
    · next heq => exact heq ▸ hok o' ho'
    · next hne =>
      refine (h.objects addr' o' ho').mono fun tid' k' hk' harg _ => ?_
      have htid : tid' ≠ tid := by
        rintro rfl
        exact hne (harg.symm.trans (hold k' hk'))
      simpa [ThreadSystem.writeThread, ThreadSystem.writeObject, htid] using hk'
  inside tid' k' hk' hin := by
    simp only [ThreadSystem.writeThread, ThreadSystem.writeObject, Function.update_apply] at hk' ⊢
    split at hk'
    · next heq =>
      cases hk'
      obtain ⟨o, hnew, hwaits⟩ := hinside hin
      exact ⟨o, by rw [if_pos rfl, hnew], heq ▸ hwaits⟩
    · next hne =>
      obtain ⟨o', ho', hwaits⟩ := h.inside tid' k' hk' hin
      split
      · next heq => exact hothers tid' o' hne (heq ▸ ho') hwaits
      · exact ⟨o', ho', hwaits⟩
  holds tid' k' hk' := by
    simp only [ThreadSystem.writeThread, ThreadSystem.writeObject, Function.update_apply] at hk'
    split at hk'
    · cases hk'
      exact hholds
    · exact h.holds tid' k' hk'
  given tid' k' hk' := by
    simp only [ThreadSystem.writeThread, ThreadSystem.writeObject, Function.update_apply] at hk'
    split at hk'
    · cases hk'
      exact hgiven
    · exact h.given tid' k' hk'
  ran tid' := by
    simp only [ThreadSystem.writeThread, ThreadSystem.writeObject, Function.update_apply]
    split
    · next heq => exact heq ▸ hran
    · next hne => rw [hkept tid' hne, h.ran tid']
  filled := h.filled
  alive := h.alive

/-- A thread whose callback has not returned has run nothing. -/
theorem Inv.ran_nil (h : s.Inv) (hk : s.threads tid = some k) (hphase : k.phase ≠ .ended) :
    s.ran.filter (·.1 = tid) = [] := by
  rw [h.ran tid, hk]
  simp [hphase]

/-- The thread that an object waits for. -/
theorem Inv.handed (h : s.Inv) (ho : s.objects addr = some o) (hwaits : WaitsFor o tid) :
    ∃ k, s.threads tid = some k ∧ k.arg = addr ∧ o.Handed tid k := by
  have hok := h.objects addr o ho
  rw [ObjectOk, hwaits.1] at hok
  obtain ⟨tid', k, hk, harg, hthread, hhanded⟩ := hok
  cases hthread.symm.trans hwaits.2
  exact ⟨k, hk, harg, hhanded⟩

theorem WaitsFor.unique {tid' : Nat} (h : WaitsFor o tid) (h' : WaitsFor o tid') : tid = tid' :=
  Option.some.inj (h.2.symm.trans h'.2)

/-! ## The steps of `run` -/

/-- A step inside `run`, on an object that still waits for the thread. -/
theorem Inv.runInside (h : s.Inv) {k' : KernelThread C} {o' : ThreadObject C}
    (hk : s.threads tid = some k) (hin : k.inside) (ho : s.objects k.arg = some o)
    (harg : k'.arg = k.arg) (hstage : o'.stage = o.stage) (hthread : o'.thread = o.thread)
    (hended : k'.phase ≠ .ended) (hgiven : k'.given = k.given)
    (hhanded : o.Handed tid k → o'.Handed tid k') (hholds : k'.Holds) :
    ((s.writeObject k.arg (some o')).writeThread tid k').Inv := by
  obtain ⟨o₁, ho₁, hwaits⟩ := h.inside tid k hk hin
  cases ho₁.symm.trans ho
  have hwaits' : WaitsFor o' tid := ⟨hstage.trans hwaits.1, hthread.trans hwaits.2⟩
  obtain ⟨k₁, hk₁, -, hwas⟩ := h.handed ho hwaits
  cases hk₁.symm.trans hk
  rw [← harg] at ho ⊢
  refine h.writeThread s.ran (fun k₁ hk₁ => ?_) (fun o₁ ho₁ => ?_)
    (fun tid' o₁ hne ho₁ hother => ?_) (fun _ => ⟨o', rfl, hwaits'⟩) hholds
    (hgiven ▸ h.given tid k hk) ?_ fun _ _ => rfl
  · cases hk₁.symm.trans hk
    exact harg.symm
  · cases ho₁
    rw [ObjectOk, hwaits'.1]
    exact ⟨tid, k', Function.update_self .., rfl, hwaits'.2, hhanded hwas⟩
  · cases ho₁.symm.trans ho
    exact absurd (hother.unique hwaits) hne
  · rw [h.ran_nil hk fun hp => hin.2 hp]
    simp [hended]

theorem writeObject_self (ho : s.objects addr = some o) : s.writeObject addr (some o) = s := by
  rw [ThreadSystem.writeObject, ← ho, Function.update_eq_self]

/-! ## The steps after `notify` -/

theorem KernelThread.phase_of_not_inside (h : ¬k.inside) :
    k.phase = .calling ∨ k.phase = .ended := by
  by_contra hne
  exact h (not_or.mp hne)

/-- The object of a thread that is past `notify` depends on the name of the thread, and on whether
    it has ended. -/
theorem ObjectOk.afterNotify (h : s.ObjectOk addr o) (hk : s.threads tid = some k)
    (hin : ¬k.inside) (howns : Owns o tid) {k' : KernelThread C} {name : String}
    (hk' : s'.threads tid = some k') (harg : k'.arg = k.arg) (hin' : ¬k'.inside)
    (hended : k.phase = .ended → k'.phase = .ended)
    (hname : k.currentName = o.name → k'.currentName = name) :
    s'.ObjectOk addr { o with name } := by
  unfold ObjectOk at h ⊢
  cases hstage : o.stage with
  | creating =>
    simp only [hstage] at h
    rcases howns with hthread | hid
    · cases h.1.symm.trans hthread
    · cases h.2.2.1.symm.trans hid
  | waiting =>
    simp only [hstage] at h ⊢
    obtain ⟨tid₁, k₁, hk₁, harg₁, hthread, hhanded⟩ := h
    have htid : tid₁ = tid := by
      rcases howns with hthread' | hid
      · exact Option.some.inj (hthread.symm.trans hthread')
      · unfold ThreadObject.Handed at hhanded
        split at hhanded
        all_goals cases hhanded.2.1.symm.trans hid
        all_goals rfl
    subst htid
    cases hk₁.symm.trans hk
    refine ⟨tid₁, k', hk', harg.trans harg₁, hthread, ?_⟩
    unfold ThreadObject.Handed at hhanded ⊢
    rcases KernelThread.phase_of_not_inside hin with hp | hp <;>
      rcases KernelThread.phase_of_not_inside hin' with hp' | hp' <;>
      simp only [hp, hp'] at hhanded ⊢ <;>
      exact ⟨hhanded.1, hhanded.2.1, hhanded.2.2.1, hname hhanded.2.2.2⟩
  | built =>
    simp only [hstage] at h ⊢
    obtain ⟨tid₁, k₁, hk₁, harg₁, -, hthread, hsem, hid, hcb, hnamed⟩ := h
    have htid : tid₁ = tid := by
      rcases howns with hthread' | hid'
      · rcases hthread with hsome | ⟨hnone, -⟩
        · exact Option.some.inj (hsome.symm.trans hthread')
        · cases hnone.symm.trans hthread'
      · exact Option.some.inj (hid.symm.trans hid')
    subst htid
    cases hk₁.symm.trans hk
    exact ⟨tid₁, k', hk', harg.trans harg₁, hin', hthread.imp id fun hj => ⟨hj.1, hended hj.2⟩,
      hsem, hid, hcb, hname hnamed⟩

/-- `run` to the end: the object may be gone. -/
theorem Inv.runEnds (h : s.Inv) {k' : KernelThread C} {c : C} (hk : s.threads tid = some k)
    (hphase : k.phase = .calling) (hk' : k' = { k with phase := .ended }) (hholds : k'.Holds)
    (hc : k.given = some c) : { s.writeThread tid k' with ran := (tid, c) :: s.ran }.Inv := by
  have hin : ¬k.inside := fun hin => hin.1 hphase
  have hin' : ¬k'.inside := fun hin => hin.2 (hk' ▸ rfl)
  have harg : k'.arg = k.arg := hk' ▸ rfl
  have hi : { (s.writeObject k'.arg (s.objects k'.arg)).writeThread tid k' with
      ran := (tid, c) :: s.ran }.Inv := by
    refine h.writeThread _ (fun k₁ hk₁ => ?_) (fun o ho => ?_)
      (fun tid' o _ ho hwaits => ⟨o, ho, hwaits⟩) (fun h => absurd h hin') hholds ?_ ?_
      fun tid' hne => ?_
    · cases hk₁.symm.trans hk
      exact harg.symm
    · have hok := h.objects k'.arg o ho
      by_cases howns : Owns o tid
      · exact hok.afterNotify hk hin howns (Function.update_self ..) harg hin'
          (fun _ => hk' ▸ rfl) fun hname => hk' ▸ hname
      · refine hok.mono fun tid' k₁ hk₁ _ howns' => ?_
        have hne : tid' ≠ tid := fun heq => howns (heq ▸ howns')
        simpa [ThreadSystem.writeThread, ThreadSystem.writeObject, hne] using hk₁
    · rw [hk']
      exact h.given tid k hk
    · rw [List.filter_cons_of_pos (by simp), h.ran_nil hk (by simp [hphase]), hk']
      change _ = k.given.toList.map fun c => (tid, c)
      rw [hc]
      rfl
    · rw [List.filter_cons_of_neg (by simpa using hne.symm)]
  rwa [ThreadSystem.writeObject, Function.update_eq_self] at hi

/-- `SetName`, while the object is there. -/
theorem Inv.setName (h : s.Inv) {name : String} (hk : s.threads tid = some k)
    (ho : s.objects k.arg = some o) (hid : o.id = some tid)
    (hs : s.setName tid k name = some s') : s'.Inv := by
  have hholds := h.holds tid k hk
  rw [ThreadSystem.setName] at hs
  split at hs
  · next hphase =>
    have hin : ¬k.inside := fun hin => hin.1 hphase
    unfold KernelThread.Holds at hholds
    rw [hphase] at hholds
    simp only [hholds.2, deref, ho, Option.some.injEq] at hs
    subst hs
    have hok : ((s.writeObject k.arg (some { o with name })).writeThread tid
        { k with currentName := name }).ObjectOk k.arg { o with name } :=
      (h.objects k.arg o ho).afterNotify hk hin (.inr hid) (Function.update_self ..) rfl hin id
        fun _ => rfl
    rw [← hholds.2]
    refine h.writeThread (k := { k with currentName := name }) s.ran (fun k₁ hk₁ => ?_)
      (fun o' ho' => ?_) (fun tid' o' _ ho' hwaits => ?_) (fun h => absurd h hin) ?_
      (h.given tid k hk) ?_ fun _ _ => rfl
    · cases hk₁.symm.trans hk
      rfl
    · cases ho'
      exact hok
    · cases ho'.symm.trans ho
      exact ⟨_, rfl, hwaits⟩
    · exact h.holds tid k hk
    · rw [h.ran_nil hk (by simp [hphase])]
      simp [hphase]
  · cases hs

theorem Inv.run (h : s.Inv) (hk : s.threads tid = some k) (hs : s.run tid k = some s') :
    s'.Inv := by
  have hholds := h.holds tid k hk
  rw [ThreadSystem.run] at hs
  by_cases hin : k.inside
  · obtain ⟨o, ho, hwaits⟩ := h.inside tid k hk hin
    obtain ⟨k₁, hk₁, -, hwas⟩ := h.handed ho hwaits
    cases hk₁.symm.trans hk
    have hstep : ∀ {k' : KernelThread C} {o' : ThreadObject C}, k'.arg = k.arg →
        o'.stage = o.stage → o'.thread = o.thread → k'.phase ≠ .ended → k'.given = k.given →
        o'.Handed tid k' → k'.Holds →
          ((s.writeObject k.arg (some o')).writeThread tid k').Inv :=
      fun harg hstage hthread hended hgiven hhanded hh =>
        h.runInside hk hin ho harg hstage hthread hended hgiven (fun _ => hhanded) hh
    simp only [deref, ho] at hs
    unfold ThreadObject.Handed at hwas
    unfold KernelThread.Holds at hholds
    cases hp : k.phase with
    | begins =>
      rw [hp] at hs hwas hholds
      cases hs
      have hi := @hstep { k with phase := .named, current := some k.arg, currentName := o.name } o
        rfl rfl rfl (by simp) rfl ⟨hwas.1, hwas.2.1, hwas.2.2, rfl⟩ ⟨hholds, rfl⟩
      rwa [writeObject_self ho] at hi
    | named =>
      rw [hp] at hs hwas hholds
      cases hs
      exact hstep rfl rfl rfl (by simp) rfl ⟨hwas.1, rfl, hwas.2.2⟩ hholds
    | identified =>
      rw [hp] at hs hwas hholds
      cases hs
      exact hstep rfl rfl rfl (by simp) rfl ⟨hwas.1, hwas.2.1, hholds.1, hwas.2.2.2⟩
        ⟨hwas.2.2.1, hholds.2⟩
    | swapped =>
      rw [hp] at hs hwas hholds
      cases hs
      exact hstep rfl rfl rfl (by simp) rfl ⟨by rw [hwas.1], hwas.2⟩ hholds
    | calling => exact absurd hp hin.1
    | ended => exact absurd hp hin.2
  · unfold KernelThread.Holds at hholds
    cases hp : k.phase with
    | calling =>
      rw [hp] at hs hholds
      obtain ⟨c, hc⟩ := Option.isSome_iff_exists.mp (h.given tid k hk)
      have hcb : k.cb = some c := hholds.1.trans hc
      simp only [hcb, Option.some.injEq] at hs
      subst hs
      exact h.runEnds hk hp (by rw [hcb]) ⟨hc.symm, hholds.2⟩ hc
    | ended =>
      rw [hp] at hs
      cases hs
    | _ => exact absurd (by simp [KernelThread.inside, hp]) hin

/-! ## The steps of the owner -/

/-- No thread is inside `run` with an object that does not wait. -/
theorem Inv.writeIdle (h : s.Inv) (hidle : ∀ o, s.objects addr = some o → o.stage ≠ .waiting)
    {new : Option (ThreadObject C)} (hok : ∀ o, new = some o → s.ObjectOk addr o) :
    (s.writeObject addr new).Inv :=
  h.writeObject hok fun _ o ho hwaits => absurd hwaits.1 (hidle o ho)

theorem Inv.create (h : s.Inv) (ho : s.objects addr = some o) (hstage : o.stage = .creating)
    (hfresh : s.threads tid = none) :
    ((s.writeObject addr (some { o with thread := some tid, stage := .waiting })).writeThread tid
      { arg := addr, given := o.cb }).Inv := by
  have hok := h.objects addr o ho
  rw [ObjectOk, hstage] at hok
  refine h.writeThread (k := { arg := addr, given := o.cb }) s.ran (fun k₁ hk₁ => ?_)
    (fun o' ho' => ?_) (fun tid' o' _ ho' hwaits => ?_) (fun _ => ⟨_, rfl, rfl, rfl⟩) rfl
    hok.2.2.2 ?_ fun _ _ => rfl
  · cases hfresh.symm.trans hk₁
  · cases ho'
    exact ⟨tid, _, Function.update_self .., rfl, rfl, hok.2.1, hok.2.2.1, rfl⟩
  · cases ho'.symm.trans ho
    cases hstage.symm.trans hwaits.1
  · rw [h.ran tid, hfresh]
    rfl

theorem Inv.wait (h : s.Inv) (ho : s.objects addr = some o) (hstage : o.stage = .waiting)
    (hsem : 0 < o.semaphore) :
    (s.writeObject addr (some { o with semaphore := o.semaphore - 1, stage := .built })).Inv := by
  have hok := h.objects addr o ho
  rw [ObjectOk, hstage] at hok
  obtain ⟨tid, k, hk, harg, hthread, hhanded⟩ := hok
  have hin : ¬k.inside ∧ o.semaphore = 1 ∧ o.id = some tid ∧ o.cb = none ∧
      k.currentName = o.name := by
    unfold ThreadObject.Handed at hhanded
    cases hp : k.phase with
    | calling | ended =>
      rw [hp] at hhanded
      exact ⟨by simp [KernelThread.inside, hp], hhanded⟩
    | _ =>
      rw [hp] at hhanded
      exact absurd hhanded.1 (Nat.ne_of_gt hsem)
  refine h.writeObject (fun o' ho' => ?_) fun tid' o' ho' hwaits k' hk' hin' => ?_
  · cases ho'
    exact ⟨tid, k, hk, harg, hin.1, .inl hthread, by rw [hin.2.1], hin.2.2⟩
  · cases ho'.symm.trans ho
    cases hthread.symm.trans hwaits.2
    cases hk'.symm.trans hk
    exact absurd hin' hin.1

theorem Inv.join (h : s.Inv) (ho : s.objects addr = some o) (hstage : o.stage = .built)
    (hthread : o.thread = some tid) (hended : (s.threads tid).any (·.phase = .ended)) :
    (s.writeObject addr (some { o with thread := none })).Inv := by
  have hok := h.objects addr o ho
  rw [ObjectOk, hstage] at hok
  obtain ⟨tid', k, hk, harg, hin, hjoined, hrest⟩ := hok
  refine h.writeIdle (fun o' ho' => ?_) fun o' ho' => ?_
  · cases ho'.symm.trans ho
    simp [hstage]
  · cases ho'
    rw [ObjectOk]
    simp only [hstage]
    refine ⟨tid', k, hk, harg, hin, .inr ⟨trivial, ?_⟩, hrest⟩
    rcases hjoined with hsome | ⟨hnone, -⟩
    · cases hsome.symm.trans hthread
      simpa [hk] using hended
    · cases hnone.symm.trans hthread

theorem Inv.step (h : s.Inv) {a : ThreadAction C} (hguard : Careful s a)
    (hs : s.step a = some s') : s'.Inv := by
  cases a with
  | construct addr cb name =>
    simp only [ThreadSystem.step, Option.isNone_iff_eq_none] at hs
    split at hs
    · next hnone =>
      cases hs
      refine h.writeIdle (fun o ho => ?_) fun o ho => ?_
      · cases hnone.symm.trans ho
      · cases ho
        exact ⟨rfl, rfl, rfl, hguard⟩
    · cases hs
  | create addr answer =>
    simp only [ThreadSystem.step] at hs
    split at hs
    · next o ho =>
      split at hs
      · next hstage =>
        cases hs
        refine h.writeIdle (fun o' ho' => ?_) fun o' ho' => by cases ho'
        cases ho'.symm.trans ho
        simp [hstage]
      · next hstage =>
        simp only [Option.isNone_iff_eq_none] at hs
        split at hs
        · next hfresh =>
          cases hs
          exact h.create ho hstage hfresh
        · cases hs
      · cases hs
    · cases hs
  | wait addr =>
    simp only [ThreadSystem.step] at hs
    split at hs
    · next o ho =>
      split at hs
      · next hwait =>
        cases hs
        exact h.wait ho hwait.1 hwait.2
      · cases hs
    · cases hs
  | waitFails addr =>
    simp only [ThreadSystem.step] at hs
    split at hs
    · next o ho =>
      split at hs
      · cases hs
        refine h.writeObject (fun o' ho' => by cases ho') fun tid o' ho' hwaits k hk hin => ?_
        exact absurd hin (hguard o' tid k ho' hwaits.2 hk)
      · cases hs
    · cases hs
  | run tid =>
    obtain ⟨k, hk, hrun⟩ := Option.bind_eq_some_iff.mp hs
    exact h.run hk hrun
  | setName tid name =>
    obtain ⟨k, hk, hset⟩ := Option.bind_eq_some_iff.mp hs
    obtain ⟨o, ho, hid⟩ := hguard k hk
    exact h.setName hk ho hid hset
  | join addr =>
    simp only [ThreadSystem.step] at hs
    split at hs
    · next o ho =>
      split at hs
      · next hstage =>
        split at hs
        · next hthread =>
          split at hs
          · next hended =>
            cases hs
            exact h.join ho hstage hthread hended
          · cases hs
        · cases hs
          exact h
      · cases hs
    · cases hs
  | joinFails addr =>
    simp only [ThreadSystem.step] at hs
    split at hs
    · split at hs
      · cases hs
        exact h
      · cases hs
    · cases hs
  | destroy addr =>
    simp only [ThreadSystem.step] at hs
    split at hs
    · next o ho =>
      split at hs
      · next hstage =>
        cases hs
        refine h.writeIdle (fun o' ho' => ?_) fun o' ho' => by cases ho'
        cases ho'.symm.trans ho
        simp [hstage]
      · cases hs
    · cases hs

theorem inv_of_reach (h : (threadMachine C).Reach Careful s) : s.Inv :=
  h.invariant (fun _ hinit => hinit ▸ inv_init) fun _ _ _ hi hguard hs => hi.step hguard hs

/-- A constructor whose wait fails at once takes the object from under its thread. -/
example : ((threadMachine Nat).run {} [.construct 5 (some 70) "", .create 5 (some 1), .waitFails 5,
    .run 1]).any (·.useAfterFree) = true := by
  decide

end ThreadSystem

end CppServerFramework.Async

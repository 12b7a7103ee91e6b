import Mathlib.Data.List.Perm.Basic
import Mathlib.Data.List.Nodup
import CppServerFramework.Async.Scheduler

/-!
# Callbacks on their way through a scheduler

A callback is moved from the queue into the local `ft` of a worker and from there into the member
`m_cb` of the fiber that carries it.  `CallbackBooks` adds these to the scheduler of
`Scheduler.lean`: the callbacks are numbered in the order in which they are scheduled, and every
place that holds a callback holds its number.
-/

namespace CppServerFramework.Async

/-- Who holds which callback: the entries of the queue, `ft.cb` of each worker and `m_cb` of each
    fiber.  Not in the source are `pins`, the pins of the callbacks scheduled so far, `dequeued`,
    the callbacks that were taken from the queue, with the worker that took them, and `finished`,
    the callbacks whose fiber has ended. -/
structure CallbackBooks where
  entries : List (FiberAndThread × Option Nat) := []
  ft : Nat → Option Nat := fun _ => none
  cb : Nat → Option Nat := fun _ => none
  pins : List (Option Nat) := []
  dequeued : List (Nat × Nat) := []
  finished : List Nat := []

/-- Where a callback can be. -/
inductive Place where
  | queue
  | worker (w : Nat)
  | fiber (f : Nat)
  | finished
  deriving DecidableEq, Repr

namespace CallbackBooks

/-- The callbacks in the queue, in its order. -/
def waiting (b : CallbackBooks) : List Nat := b.entries.filterMap Prod.snd

/-- The callbacks that were taken from the queue, in this order. -/
def taken (b : CallbackBooks) : List Nat := b.dequeued.map Prod.fst

/-- `push_back` of a callback. -/
def push (b : CallbackBooks) (thread : Option Nat) : CallbackBooks :=
  { b with
    entries := b.entries ++ [(⟨.cb, thread⟩, some b.pins.length)]
    pins := b.pins ++ [thread] }

/-- `push_back` of a fiber. -/
def pushFiber (b : CallbackBooks) (f : Nat) (thread : Option Nat) : CallbackBooks :=
  { b with entries := b.entries ++ [(⟨.fiber f, thread⟩, none)] }

/-- The worker takes the first entry that `fits`. -/
def take (b : CallbackBooks) (w : Nat) (fits : FiberAndThread → Bool) : CallbackBooks :=
  match b.entries.find? fun e => fits e.1 with
  | none => b
  | some e =>
    { b with
      entries := b.entries.eraseP fun e => fits e.1
      ft := Function.update b.ft w e.2
      dequeued := b.dequeued ++ e.2.toList.map fun k => (k, w) }

/-- The callback of the worker becomes the one of the fiber. -/
def start (b : CallbackBooks) (w f : Nat) : CallbackBooks :=
  { b with cb := Function.update b.cb f (b.ft w), ft := Function.update b.ft w none }

/-- The fiber has ended. -/
def finish (b : CallbackBooks) (f : Nat) : CallbackBooks :=
  { b with finished := b.finished ++ (b.cb f).toList, cb := Function.update b.cb f none }

/-- The callback is in this place. -/
def At (b : CallbackBooks) (k : Nat) : Place → Prop
  | .queue => k ∈ b.waiting
  | .worker w => b.ft w = some k
  | .fiber f => b.cb f = some k
  | .finished => k ∈ b.finished

/-- The callback is pinned so. -/
def pinned (b : CallbackBooks) (pin : Option Nat) (k : Nat) : Bool := b.pins[k]? = some pin

/-- The books are right: every callback is in one place only, the callbacks leave the queue in the
    order in which they came, pin by pin, and a pin is respected. -/
structure Kept (b : CallbackBooks) (place : Nat → Place) : Prop where
  located : ∀ k p, b.At k p ↔ k < b.pins.length ∧ place k = p
  finishedOnce : b.finished.Nodup
  all : (b.taken ++ b.waiting).Perm (List.range b.pins.length)
  order : ∀ pin, b.taken.filter (b.pinned pin) ++ b.waiting.filter (b.pinned pin) =
    (List.range b.pins.length).filter (b.pinned pin)
  respected : ∀ d ∈ b.dequeued, b.pins[d.1]? = some none ∨ b.pins[d.1]? = some (some d.2)
  tagged : ∀ e ∈ b.entries, ∀ k, e.2 = some k → e.1.task = .cb ∧ b.pins[k]? = some e.1.thread
  fibers : ∀ e ∈ b.entries, e.2 = none → e.1.task ≠ .cb

variable {b b' : CallbackBooks} {place : Nat → Place} {k w f : Nat}

theorem Kept.waiting_nodup (h : b.Kept place) : b.waiting.Nodup :=
  (List.nodup_append.mp (h.all.nodup_iff.mpr List.nodup_range)).2.1

/-- A callback that is in one place is in no other. -/
theorem Kept.unique (h : b.Kept place) {p q : Place} (hp : b.At k p) (hq : b.At k q) : p = q :=
  ((h.located k p).mp hp).2.symm.trans ((h.located k q).mp hq).2

/-- One callback changes its place. -/
theorem Kept.relocate {q : Place} (h : b.Kept place) (hk : k < b.pins.length)
    (hpins : b'.pins.length = b.pins.length)
    (hat : ∀ j p, b'.At j p ↔ if j = k then p = q else b.At j p) (j : Nat) (p : Place) :
    b'.At j p ↔ j < b'.pins.length ∧ Function.update place k q j = p := by
  rw [hat, hpins]
  by_cases hj : j = k
  · subst hj
    rw [if_pos rfl, Function.update_self]
    exact ⟨fun hp => ⟨hk, hp.symm⟩, fun hp => hp.2.symm⟩
  · rw [if_neg hj, Function.update_of_ne hj]
    exact h.located j p

/-! ## Scheduling -/

theorem pinned_push {pin thread : Option Nat} (hk : k < b.pins.length) :
    (b.push thread).pinned pin k = b.pinned pin k := by
  simp [pinned, push, List.getElem?_append_left hk]

theorem Kept.filter_push {l : List Nat} (h : ∀ k ∈ l, k < b.pins.length)
    (pin thread : Option Nat) :
    l.filter ((b.push thread).pinned pin) = l.filter (b.pinned pin) :=
  List.filter_congr fun _ hk => pinned_push (h _ hk)

theorem Kept.push (h : b.Kept place) (thread : Option Nat) :
    (b.push thread).Kept (Function.update place b.pins.length .queue) := by
  have hlt : ∀ k, k ∈ b.taken ++ b.waiting → k < b.pins.length := fun k hk =>
    List.mem_range.mp (h.all.mem_iff.mp hk)
  have hwaiting : (b.push thread).waiting = b.waiting ++ [b.pins.length] := by
    simp [waiting, CallbackBooks.push]
  refine ⟨?_, h.finishedOnce, ?_, ?_, ?_, ?_, ?_⟩
  · intro k p
    have hlen : (b.push thread).pins.length = b.pins.length + 1 := by simp [CallbackBooks.push]
    have hat : (b.push thread).At k p ↔ b.At k p ∨ k = b.pins.length ∧ p = .queue := by
      cases p with
      | queue => simp [At, hwaiting]
      | _ => simp [At, CallbackBooks.push]
    rw [hat, hlen, h.located]
    by_cases hk : k = b.pins.length
    · subst hk
      simp [eq_comm]
    · rw [Function.update_of_ne hk]
      simp only [hk, false_and, or_false]
      constructor
      · exact fun hp => ⟨Nat.lt_succ_of_lt hp.1, hp.2⟩
      · exact fun hp => ⟨by omega, hp.2⟩
  · have hrange : List.range (b.push thread).pins.length =
        List.range b.pins.length ++ [b.pins.length] := by
      simp [CallbackBooks.push, List.range_succ]
    rw [hwaiting, hrange, ← List.append_assoc]
    exact h.all.append_right _
  · intro pin
    have hrange : List.range (b.push thread).pins.length =
        List.range b.pins.length ++ [b.pins.length] := by
      simp [CallbackBooks.push, List.range_succ]
    rw [hwaiting, hrange, List.filter_append, List.filter_append, ← List.append_assoc]
    rw [show (b.push thread).taken = b.taken from rfl,
      Kept.filter_push (fun k hk => hlt k (List.mem_append_left _ hk)),
      Kept.filter_push (fun k hk => hlt k (List.mem_append_right _ hk)),
      Kept.filter_push (fun k hk => List.mem_range.mp hk), h.order]
  · intro d hd
    have hk : d.1 < b.pins.length :=
      hlt d.1 (List.mem_append_left _ (List.mem_map_of_mem hd))
    simpa [CallbackBooks.push, List.getElem?_append_left hk] using h.respected d hd
  · intro e he k hek
    rcases List.mem_append.mp he with he | he
    · obtain ⟨htask, hpin⟩ := h.tagged e he k hek
      have hk : k < b.pins.length := by
        obtain ⟨hk, -⟩ := List.getElem?_eq_some_iff.mp hpin
        exact hk
      exact ⟨htask, by simpa [CallbackBooks.push, List.getElem?_append_left hk] using hpin⟩
    · rw [List.mem_singleton] at he
      subst he
      cases hek
      exact ⟨rfl, by simp [CallbackBooks.push]⟩
  · intro e he hek
    rcases List.mem_append.mp he with he | he
    · exact h.fibers e he hek
    · rw [List.mem_singleton] at he
      subst he
      cases hek

theorem Kept.pushFiber (h : b.Kept place) (f : Nat) (thread : Option Nat) :
    (b.pushFiber f thread).Kept place := by
  have hwaiting : (b.pushFiber f thread).waiting = b.waiting := by
    simp [waiting, CallbackBooks.pushFiber]
  refine ⟨?_, h.finishedOnce, ?_, ?_, h.respected, ?_, ?_⟩
  · intro k p
    rw [show (b.pushFiber f thread).pins = b.pins from rfl, ← h.located]
    cases p <;> simp [At, hwaiting] <;> rfl
  · rw [hwaiting]
    exact h.all
  · intro pin
    rw [hwaiting]
    exact h.order pin
  · intro e he k hek
    rcases List.mem_append.mp he with he | he
    · exact h.tagged e he k hek
    · rw [List.mem_singleton] at he
      subst he
      cases hek
  · intro e he hek
    rcases List.mem_append.mp he with he | he
    · exact h.fibers e he hek
    · rw [List.mem_singleton] at he
      subst he
      simp

/-! ## Taking -/

/-- A worker takes the first entry that it may run, and passes over fibers and entries that are
    pinned to others only. -/
structure Fits (fits : FiberAndThread → Bool) (w : Nat) : Prop where
  may : ∀ e, fits e = true → e.mayRun w = true
  cb : ∀ e, e.task = .cb → e.mayRun w = true → fits e = true

/-- The entry that is taken, and what stands before and behind it. -/
theorem take_spec {fits : FiberAndThread → Bool} {e : FiberAndThread × Option Nat}
    (he : b.entries.find? (fun e => fits e.1) = some e) :
    ∃ l r, b.entries = l ++ e :: r ∧ (∀ x ∈ l, fits x.1 = false) ∧ fits e.1 = true ∧
      b.take w fits = { b with
        entries := l ++ r
        ft := Function.update b.ft w e.2
        dequeued := b.dequeued ++ e.2.toList.map fun k => (k, w) } := by
  obtain ⟨hfit, l, r, hl, hfree⟩ := List.find?_eq_some_iff_append.mp he
  have hfree : ∀ x ∈ l, fits x.1 = false := fun x hx => by simpa using hfree x hx
  refine ⟨l, r, hl, hfree, hfit, ?_⟩
  have herase : b.entries.eraseP (fun e => fits e.1) = l ++ r := by
    rw [hl, List.eraseP_append_right _ fun x hx => by simp [hfree x hx]]
    simp [hfit]
  rw [take, he]
  simp only [herase]

/-- A fiber leaves the queue. -/
theorem Kept.takeFiber (h : b.Kept place) {l r : List (FiberAndThread × Option Nat)}
    {e : FiberAndThread} (hl : b.entries = l ++ (e, none) :: r) :
    { b with entries := l ++ r }.Kept place := by
  have hsub : ∀ x ∈ l ++ r, x ∈ b.entries := by
    rw [hl]
    exact List.Sublist.subset ((List.Sublist.refl l).append (List.sublist_cons_self _ r))
  have hwaiting : ({ b with entries := l ++ r } : CallbackBooks).waiting = b.waiting := by
    simp [waiting, hl]
  refine ⟨?_, h.finishedOnce, hwaiting ▸ h.all, ?_, h.respected,
    fun x hx => h.tagged x (hsub x hx), fun x hx => h.fibers x (hsub x hx)⟩
  · intro k p
    rw [← h.located]
    cases p with
    | queue => rw [At, At, hwaiting]
    | _ => rfl
  · intro pin
    rw [hwaiting]
    exact h.order pin

/-- The first element of its kind moves to the end of what has been taken. -/
theorem filter_moved {p : Nat → Bool} {t l r : List Nat}
    (h : p k = true → ∀ j ∈ l, p j = false) :
    (t ++ [k]).filter p ++ (l ++ r).filter p = t.filter p ++ (l ++ k :: r).filter p := by
  simp only [List.filter_append, List.append_assoc, List.append_cancel_left_eq, List.filter_cons,
    List.filter_nil]
  split
  · rename_i hp
    have hnil : l.filter p = [] := List.filter_eq_nil_iff.mpr fun j hj => by simp [h hp j hj]
    rw [hnil]
    rfl
  · rfl

/-- A callback leaves the queue, before which no callback has the same pin. -/
theorem Kept.takeCb (h : b.Kept place) {l r : List (FiberAndThread × Option Nat)}
    {e : FiberAndThread} (hl : b.entries = l ++ (e, some k) :: r) (hmay : e.mayRun w = true)
    (hfirst : ∀ j ∈ l.filterMap Prod.snd, b.pinned e.thread j = false) (hft : b.ft w = none) :
    { b with
      entries := l ++ r
      ft := Function.update b.ft w (some k)
      dequeued := b.dequeued ++ [(k, w)] }.Kept (Function.update place k (.worker w)) := by
  have hsub : ∀ x ∈ l ++ r, x ∈ b.entries := by
    rw [hl]
    exact List.Sublist.subset ((List.Sublist.refl l).append (List.sublist_cons_self _ r))
  obtain ⟨-, hpin⟩ := h.tagged (e, some k) (hl ▸ List.mem_append_right _ (by simp)) k rfl
  have hwaiting : b.waiting = l.filterMap Prod.snd ++ k :: r.filterMap Prod.snd := by
    simp [waiting, hl]
  have hrest : (l ++ r).filterMap Prod.snd = l.filterMap Prod.snd ++ r.filterMap Prod.snd :=
    List.filterMap_append
  have hk : b.At k .queue := by
    rw [At, hwaiting]
    simp
  have hnotMem : k ∉ (l ++ r).filterMap Prod.snd := by
    have hnodup := h.waiting_nodup
    rw [hwaiting, List.nodup_middle, List.nodup_cons] at hnodup
    rw [hrest]
    exact hnodup.1
  refine ⟨h.relocate ((h.located _ _).mp hk).1 rfl ?_, h.finishedOnce, ?_, ?_, ?_,
    fun x hx => h.tagged x (hsub x hx), fun x hx => h.fibers x (hsub x hx)⟩
  · intro j p
    by_cases hj : j = k
    · subst hj
      rw [if_pos rfl]
      cases p with
      | queue => simpa [At, waiting] using hnotMem
      | worker w' =>
        by_cases hw : w' = w
        · simp [At, hw]
        · simp only [At, Function.update_of_ne hw, Place.worker.injEq, hw, iff_false]
          exact fun hp => Place.noConfusion (h.unique (q := .worker w') hk hp)
      | fiber f =>
        simp only [reduceCtorEq, iff_false]
        exact fun hp => Place.noConfusion (h.unique (q := .fiber f) hk hp)
      | finished =>
        simp only [reduceCtorEq, iff_false]
        exact fun hp => Place.noConfusion (h.unique (q := .finished) hk hp)
    · rw [if_neg hj]
      cases p with
      | queue => simp [At, waiting, hl, hj]
      | worker w' =>
        by_cases hw : w' = w
        · simp [At, hw, hft, Ne.symm hj]
        · simp [At, hw]
      | _ => rfl
  · refine List.Perm.trans ?_ h.all
    simp only [taken, waiting, hl, List.map_append, List.map_cons, List.map_nil,
      List.filterMap_append, List.filterMap_cons, List.append_assoc, List.cons_append,
      List.nil_append]
    exact List.Perm.append_left _ (List.perm_middle.symm)
  · intro pin
    refine Eq.trans ?_ (h.order pin)
    have htaken : (b.dequeued ++ [(k, w)]).map Prod.fst = b.taken ++ [k] := by simp [taken]
    rw [hwaiting, taken, waiting, htaken, hrest]
    apply filter_moved
    intro hp
    have heq : e.thread = pin := by
      have hp : b.pinned pin k = true := hp
      rwa [pinned, hpin, decide_eq_true_eq, Option.some.injEq] at hp
    exact heq ▸ hfirst
  · intro d hd
    rcases List.mem_append.mp hd with hd | hd
    · exact h.respected d hd
    · obtain rfl := List.mem_singleton.mp hd
      simp only [FiberAndThread.mayRun, decide_eq_true_eq] at hmay
      rcases hmay with hnone | hsome
      · exact Or.inl (hnone ▸ hpin)
      · exact Or.inr (hsome ▸ hpin)

theorem Kept.take (h : b.Kept place) {fits : FiberAndThread → Bool} (hfits : Fits fits w)
    (hft : b.ft w = none) : ∃ place, (b.take w fits).Kept place := by
  cases he : b.entries.find? fun e => fits e.1 with
  | none =>
    rw [CallbackBooks.take, he]
    exact ⟨place, h⟩
  | some e =>
    obtain ⟨l, r, hl, hfree, hfit, htake⟩ := take_spec (w := w) he
    rw [htake]
    obtain ⟨entry, tag⟩ := e
    cases tag with
    | none =>
      have hsame : Function.update b.ft w none = b.ft := by
        rw [← hft, Function.update_eq_self]
      simp only [hsame, Option.toList_none, List.map_nil, List.append_nil]
      exact ⟨place, h.takeFiber hl⟩
    | some k =>
      have hmay := hfits.may entry hfit
      refine ⟨_, h.takeCb hl hmay ?_ hft⟩
      -- what is passed over is pinned to others
      intro j hj
      obtain ⟨x, hx, hxj⟩ := List.mem_filterMap.mp hj
      obtain ⟨hxtask, hxpin⟩ := h.tagged x (hl ▸ List.mem_append_left _ hx) j hxj
      rw [pinned, hxpin, decide_eq_false_iff_not, Option.some.injEq]
      intro heq
      have hxmay : x.1.mayRun w = true := by
        rw [← hmay, FiberAndThread.mayRun, FiberAndThread.mayRun, heq]
      have hxfit := hfits.cb x.1 hxtask hxmay
      rw [hfree x hx] at hxfit
      cases hxfit

/-! ## Running -/

theorem Kept.start (h : b.Kept place) (hk : b.ft w = some k) (hcb : b.cb f = none) :
    (b.start w f).Kept (Function.update place k (.fiber f)) := by
  have hat : b.At k (.worker w) := hk
  refine ⟨h.relocate ((h.located _ _).mp hat).1 rfl ?_, h.finishedOnce, h.all, h.order, h.respected,
    h.tagged, h.fibers⟩
  intro j p
  by_cases hj : j = k
  · subst hj
    rw [if_pos rfl]
    cases p with
    | queue =>
      simp only [reduceCtorEq, iff_false]
      exact fun hp => Place.noConfusion (h.unique (q := .queue) hat hp)
    | worker w' =>
      simp only [reduceCtorEq, iff_false]
      by_cases hw : w' = w
      · simp [At, CallbackBooks.start, hw]
      · simp only [At, CallbackBooks.start, Function.update_of_ne hw]
        exact fun hp => hw (Place.worker.inj (h.unique (p := .worker w') (q := .worker w) hp hat))
    | fiber g =>
      by_cases hg : g = f
      · simp [At, CallbackBooks.start, hg, hk]
      · simp only [At, CallbackBooks.start, Function.update_of_ne hg, Place.fiber.injEq, hg,
          iff_false]
        exact fun hp => Place.noConfusion (h.unique (q := .fiber g) hat hp)
    | finished =>
      simp only [reduceCtorEq, iff_false]
      exact fun hp => Place.noConfusion (h.unique (q := .finished) hat hp)
  · rw [if_neg hj]
    cases p with
    | worker w' =>
      by_cases hw : w' = w
      · simp [At, CallbackBooks.start, hw, hk, Ne.symm hj]
      · simp [At, CallbackBooks.start, hw]
    | fiber g =>
      by_cases hg : g = f
      · simp [At, CallbackBooks.start, hg, hk, hcb, Ne.symm hj]
      · simp [At, CallbackBooks.start, hg]
    | _ => rfl

theorem Kept.finish (h : b.Kept place) (f : Nat) : ∃ place, (b.finish f).Kept place := by
  cases hk : b.cb f with
  | none =>
    have hcb : Function.update b.cb f none = b.cb := by rw [← hk, Function.update_eq_self]
    refine ⟨place, ?_⟩
    rw [CallbackBooks.finish, hk, hcb]
    simpa using h
  | some k =>
    have hat : b.At k (.fiber f) := hk
    have hnotMem : k ∉ b.finished := fun hp =>
      Place.noConfusion (h.unique (q := .finished) hat hp)
    have hfinished : (b.finish f).finished = b.finished ++ [k] := by simp [CallbackBooks.finish, hk]
    refine ⟨_, h.relocate (q := .finished) ((h.located _ _).mp hat).1 rfl ?_, ?_, h.all, h.order,
      h.respected, h.tagged, h.fibers⟩
    · intro j p
      by_cases hj : j = k
      · subst hj
        rw [if_pos rfl]
        cases p with
        | queue =>
          simp only [reduceCtorEq, iff_false]
          exact fun hp => Place.noConfusion (h.unique (q := .queue) hat hp)
        | worker w =>
          simp only [reduceCtorEq, iff_false]
          exact fun hp => Place.noConfusion (h.unique (q := .worker w) hat hp)
        | fiber g =>
          simp only [reduceCtorEq, iff_false]
          by_cases hg : g = f
          · simp [At, CallbackBooks.finish, hg]
          · simp only [At, CallbackBooks.finish, Function.update_of_ne hg]
            exact fun hp => hg (Place.fiber.inj (h.unique (p := .fiber g) (q := .fiber f) hp hat))
        | finished => simp [At, hfinished]
      · rw [if_neg hj]
        cases p with
        | fiber g =>
          by_cases hg : g = f
          · simp [At, CallbackBooks.finish, hg, hk, Ne.symm hj]
          · simp [At, CallbackBooks.finish, hg]
        | finished => simp [At, hfinished, hj]
        | _ => rfl
    · rw [hfinished]
      exact List.nodup_append.mpr ⟨h.finishedOnce, List.nodup_singleton k, by
        intro j hj x hx
        rw [List.mem_singleton.mp hx]
        exact fun heq => hnotMem (heq ▸ hj)⟩

end CallbackBooks

/-! ## The machine -/

/-- The entries that the scan of a worker does not pass. -/
def FiberAndThread.fits (state : Nat → FiberState) (w : Nat) (e : FiberAndThread) : Bool :=
  e.mayRun w && !e.task.isExec state

/-- A scheduler with its books, and the ranges that callers hand to the batch form of `schedule`:
    which of their elements hold a callback. -/
structure Callbacks where
  sched : Scheduler
  books : CallbackBooks := {}
  ranges : Nat → List Bool := fun _ => []

inductive CallbackAction where
  /-- `schedule` of a callback, which may be null -/
  | schedule (cb : Bool) (thread : Option Nat)
  /-- a caller sets its range up -/
  | fill (caller : Nat) (range : List Bool)
  | scheduleRange (caller : Nat)
  /-- any other step of the scheduler -/
  | run (a : SchedAction)
  deriving DecidableEq, Repr

namespace Callbacks

/-- `scheduleNoLock` (`scheduler.h:76-84`): a null callback is not queued. -/
def schedule (s : Callbacks) (cb : Bool) (thread : Option Nat) : Callbacks :=
  if cb then
    { s with sched := s.sched.scheduleNoLock .cb thread, books := s.books.push thread }
  else s

/-- The batch form of `schedule` (`scheduler.h:42-55`), under one lock; `swap` leaves null
    callbacks behind in the range (`scheduler.h:104-107`). -/
def scheduleRange (s : Callbacks) (caller : Nat) : Callbacks :=
  let range := s.ranges caller
  { range.foldl (fun s cb => s.schedule cb none) s with
    ranges := Function.update s.ranges caller (range.map fun _ => false) }

/-- The books after a step of the scheduler to `t`. -/
def follow (s : Callbacks) (t : Scheduler) : SchedAction → CallbackBooks
  | .schedule (.fiber f) thread => s.books.pushFiber f thread
  | .scan w => s.books.take w (FiberAndThread.fits s.sched.state w)
  | .prepare w =>
    match (t.workers w).phase with
    | .entering f .cb => s.books.start w f
    | _ => s.books
  | .terminate w | .throw w =>
    match (s.sched.workers w).phase with
    | .running f _ => s.books.finish f
    | _ => s.books
  | .finish w =>
    match (s.sched.workers w).phase with
    | .requeue f _ => s.books.pushFiber f none
    | _ => s.books
  | _ => s.books

def step (s : Callbacks) : CallbackAction → Option Callbacks
  | .schedule cb thread => some (s.schedule cb thread)
  | .fill caller range => some { s with ranges := Function.update s.ranges caller range }
  | .scheduleRange caller => some (s.scheduleRange caller)
  | .run (.schedule .cb _) => none
  | .run a => (s.sched.step a).map fun t => { s with sched := t, books := s.follow t a }

end Callbacks

/-- Any number of workers, each about to enter the loop. -/
def callbackMachine : Machine Callbacks CallbackAction where
  init s := ∃ threads, s = { sched := { threads := threads } }
  step := Callbacks.step

end CppServerFramework.Async

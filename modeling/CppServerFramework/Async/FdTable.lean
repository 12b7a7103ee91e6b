import CppServerFramework.Async.Waiters
import Mathlib.Logic.Function.Basic

/-!
# Growing the `FdContext` table

`addEvent`, `delEvent`, `cancelEvent` and `cancelAll` on any number of threads, with the test of
the table's size under the read lock, `contextResize` under the write lock and the section of
the descriptor's mutex as separate steps (`iomanager.cpp:63-88`, `127-137`, `165-175`,
`201-214`).  A context is named by its address; `contexts` holds all that have ever been made,
in the order of their addresses, whether the table still points to them or not.
-/

namespace CppServerFramework.Async

/-- A call of one of the four operations. -/
inductive TableOp where
  | addEvent (fd : Nat) (e : Event) (cb scheduler : Option Nat) (fiber : Nat)
  | delEvent (fd : Nat) (e : Event)
  | cancelEvent (fd : Nat) (e : Event)
  | cancelAll (fd : Nat)
  deriving DecidableEq, Repr

namespace TableOp

def fd : TableOp → Nat
  | .addEvent fd _ _ _ _ | .delEvent fd _ | .cancelEvent fd _ | .cancelAll fd => fd

/-- The section of the operation under the mutex of the context at address `p`. -/
def action (p : Nat) (ctl : Bool) : TableOp → IOAction
  | .addEvent _ e cb scheduler fiber => .addEvent p e cb scheduler fiber ctl
  | .delEvent _ e => .delEvent p e ctl
  | .cancelEvent _ e => .cancelEvent p e ctl
  | .cancelAll _ => .cancelAll p ctl

end TableOp

inductive TableThread where
  | idle
  /-- has found the descriptor beyond the table and is about to take the write lock -/
  | growing (op : TableOp)
  /-- has the address of the context and is about to lock its mutex -/
  | holds (op : TableOp) (p : Nat)
  deriving DecidableEq, Repr

/-- `live` tells of each event whether an `addEvent` has returned `0` for it and it has not
    been deleted, cancelled or dispatched since. -/
structure FdTable where
  contexts : IOManager
  table : List Nat
  threads : Nat → TableThread := fun _ => .idle
  live : Nat → Event → Bool := fun _ _ => false

/-- The events `es` of a descriptor become live or cease to be. -/
def setLive (live : Nat → Event → Bool) (fd : Nat) (es : List Event) (v : Bool) :
    Nat → Event → Bool :=
  fun fd' e => if fd' = fd ∧ e ∈ es then v else live fd' e

namespace FdTable

def setThread (s : FdTable) (w : Nat) (x : TableThread) : FdTable :=
  { s with threads := Function.update s.threads w x }

/-- `contextResize` (`iomanager.cpp:63-73`): the table has `size` entries afterwards, those
    behind the old end point to new contexts. -/
def contextResize (s : FdTable) (size : Nat) : FdTable :=
  let added := size - s.table.length
  { s with
    contexts := { s.contexts with fdContexts := s.contexts.fdContexts ++
      (List.range' s.table.length added).map fun i => { fd := i } }
    table := s.table.take size ++ List.range' s.contexts.fdContexts.length added }

/-- The section under the read lock; `delEvent` and the cancelling operations return `false`
    for a descriptor beyond the table. -/
def start (s : FdTable) (w : Nat) (op : TableOp) : Option FdTable :=
  match s.threads w with
  | .idle =>
    some (s.setThread w
      (match s.table[op.fd]? with
      | some p => .holds op p
      | none =>
        match op with
        | .addEvent .. => .growing op
        | _ => .idle))
  | _ => none

/-- The section of `addEvent` under the write lock (`iomanager.cpp:84-87`). -/
def grow (s : FdTable) (w : Nat) : Option FdTable :=
  match s.threads w with
  | .growing op =>
    let s := s.contextResize (op.fd * 3 / 2)
    s.table[op.fd]?.map fun p => s.setThread w (.holds op p)
  | _ => none

/-- What is live behind an operation, from its answer. -/
def answered (s : FdTable) (p : Nat) (ctl : Bool) : TableOp → Nat → Event → Bool
  | .addEvent fd e cb scheduler fiber =>
    match s.contexts.addEvent p e cb scheduler fiber ctl with
    | .ok (_, 0) => setLive s.live fd [e] true
    | _ => s.live
  | .delEvent fd e =>
    if (s.contexts.delEvent p e ctl).2 then setLive s.live fd [e] false else s.live
  | .cancelEvent fd e =>
    match s.contexts.cancelEvent p e ctl with
    | .ok (_, true) => setLive s.live fd [e] false
    | _ => s.live
  | .cancelAll fd =>
    match s.contexts.cancelAll p ctl with
    | .ok (_, true) => setLive s.live fd [.read, .write] false
    | _ => s.live

/-- The section under the mutex of the context. -/
def perform (s : FdTable) (w : Nat) (ctl : Bool) : Option FdTable :=
  match s.threads w with
  | .holds op p =>
    (s.contexts.apply (op.action p ctl)).toOption.map fun contexts =>
      { s with contexts := contexts, live := s.answered p ctl op }.setThread w .idle
  | _ => none

/-- An epoll result for the context at address `p`. -/
def dispatch (s : FdTable) (p : Nat) (ev : EpollEvents) (ctl : Bool) : Option FdTable :=
  match s.contexts.fdContexts[p]? with
  | none => none
  | some c =>
    (s.contexts.dispatch p ev ctl).toOption.map fun contexts =>
      { s with
        contexts := contexts
        live := setLive s.live c.fd (s.contexts.firing p ev ctl) false }

end FdTable

inductive TableAction where
  | start (w : Nat) (op : TableOp)
  | grow (w : Nat)
  | perform (w : Nat) (ctl : Bool)
  | dispatch (p : Nat) (ev : EpollEvents) (ctl : Bool)
  deriving DecidableEq, Repr

def FdTable.step (s : FdTable) : TableAction → Option FdTable
  | .start w op => s.start w op
  | .grow w => s.grow w
  | .perform w ctl => s.perform w ctl
  | .dispatch p ev ctl => s.dispatch p ev ctl

def FdTable.initial : FdTable := FdTable.contextResize ⟨{}, [], fun _ => .idle, fun _ _ => false⟩ 32

def tableMachine : Machine FdTable TableAction where
  init s := s = .initial
  step := FdTable.step

/-- The condition on a step: a thread that resizes the table does not make it smaller than it
    has become since the thread looked. -/
def TableGuard (s : FdTable) : TableAction → Prop
  | .grow w => ∀ op, s.threads w = .growing op → s.table.length ≤ op.fd * 3 / 2
  | _ => True

namespace FdTable

/-- The table has not shrunk, and no entry points to another context. -/
def Kept (s t : FdTable) : Prop := ∀ (fd p : Nat), s.table[fd]? = some p → t.table[fd]? = some p

/-- Every live event is found: the table has its descriptor, the event is registered in the
    context there, and that is the context of every operation on the descriptor under way. -/
def Finds (s : FdTable) : Prop :=
  ∀ fd e, s.live fd e = true → ∃ p, s.table[fd]? = some p ∧
    s.contexts.registered p e = true ∧ ∀ w op q, s.threads w = .holds op q → op.fd = fd → q = p

/-- Without shrinking, the address of a context is its descriptor. -/
structure Inv (s : FdTable) : Prop where
  table : s.table = List.range s.contexts.fdContexts.length
  size : 2 ≤ s.contexts.fdContexts.length
  fd : s.contexts.fdContexts.map FdContext.fd = List.range s.contexts.fdContexts.length
  growing : ∀ w op, s.threads w = .growing op → 2 ≤ op.fd
  holds : ∀ w op q, s.threads w = .holds op q → q = op.fd ∧ q < s.contexts.fdContexts.length
  live : ∀ fd e, s.live fd e = s.contexts.registered fd e

end FdTable

/-! ## What the operations do to a context -/

theorem FdContext.setContext_fd (c : FdContext) (e : Event) (x : EventContext) :
    (c.setContext e x).fd = c.fd := by
  cases e <;> rfl

theorem FdContext.triggerEvent_ok {c c' : FdContext} {e : Event} {tasks : List Scheduled}
    (h : c.triggerEvent e = .ok (c', tasks)) : c'.events = c.events.erase e ∧ c'.fd = c.fd := by
  simp only [FdContext.triggerEvent] at h
  split at h
  · split at h
    · cases h
    · split at h <;> cases h <;> exact ⟨setContext_events _ _ _, setContext_fd _ _ _⟩
  · cases h

/-- Triggering events takes them, and nothing else, out of the mask. -/
theorem FdContext.triggerEvents_ok {es : List Event} :
    ∀ {c c' : FdContext} {tasks : List Scheduled}, c.triggerEvents es = .ok (c', tasks) →
      (∀ f, c'.events.has f = (c.events.has f && !es.contains f)) ∧ c'.fd = c.fd := by
  induction es with
  | nil =>
    intro c c' tasks h
    cases h
    simp
  | cons e es ih =>
    intro c c' tasks h
    rw [FdContext.triggerEvents] at h
    cases htrig : c.triggerEvent e with
    | error err => rw [htrig] at h; cases h
    | ok r =>
      obtain ⟨d, now⟩ := r
      obtain ⟨hevents, hfd⟩ := triggerEvent_ok htrig
      rw [htrig] at h
      obtain ⟨⟨c'', later⟩, hrest, heq⟩ := exists_of_map_eq_ok
        (f := fun r : FdContext × List Scheduled => (r.1, now ++ r.2)) h
      cases heq
      obtain ⟨hhas, hfd'⟩ := ih hrest
      refine ⟨fun f => ?_, hfd'.trans hfd⟩
      rw [hhas, hevents]
      by_cases hfe : f = e
      · subst hfe
        simp
      · rw [EventMask.has_erase_ne _ hfe]
        simp [hfe]

namespace IOManager

variable {s t : IOManager} {p : Nat} {c c' : FdContext} {e : Event} {ctl : Bool}

/-- The contexts are still those of the same descriptors. -/
def SameFds (s t : IOManager) : Prop :=
  t.fdContexts.map FdContext.fd = s.fdContexts.map FdContext.fd

theorem SameFds.length (h : s.SameFds t) : t.fdContexts.length = s.fdContexts.length := by
  simpa using congrArg List.length h

theorem sameFds_set (hc : s.fdContexts[p]? = some c) (ht : t.fdContexts = s.fdContexts.set p c')
    (hfd : c'.fd = c.fd) : s.SameFds t := by
  obtain ⟨hlt, rfl⟩ := List.getElem?_eq_some_iff.mp hc
  have hlt' : p < (s.fdContexts.map FdContext.fd).length := by simpa using hlt
  rw [SameFds, ht, List.map_set, hfd, ← List.getElem_map FdContext.fd (h := hlt'),
    List.set_getElem_self]

theorem registered_triggerAt {es : List Event} (hc : s.fdContexts[p]? = some c)
    (h : s.triggerAt p c es = .ok t) :
    s.SameFds t ∧ ∀ q e, t.registered q e = (s.registered q e && !(q == p && es.contains e)) := by
  rw [IOManager.triggerAt] at h
  obtain ⟨⟨c', tasks⟩, htrig, heq⟩ := exists_of_map_eq_ok
    (f := fun r : FdContext × List Scheduled => ({ s with
      fdContexts := s.fdContexts.set p r.1
      pendingEventCount := s.pendingEventCount - es.length
      scheduled := s.scheduled ++ r.2 } : IOManager)) h
  subst heq
  obtain ⟨hhas, hfd⟩ := FdContext.triggerEvents_ok htrig
  refine ⟨sameFds_set hc rfl hfd, fun q e => ?_⟩
  rw [registered_set hc rfl]
  by_cases hq : q = p
  · subst hq
    simp [hhas, registered, hc]
  · simp [hq]

end IOManager

namespace FdTable

variable {s t : FdTable} {contexts : IOManager} {p : Nat} {ctl : Bool}

/-- The section of an operation under the mutex of its context: the answer tells what is live. -/
theorem Inv.answered (h : s.Inv) {op : TableOp} (hp : p = op.fd)
    (hlt : p < s.contexts.fdContexts.length)
    (hrun : s.contexts.apply (op.action p ctl) = .ok contexts) :
    s.contexts.SameFds contexts ∧
      ∀ q e, s.answered p ctl op q e = contexts.registered q e := by
  obtain ⟨c, hc⟩ : ∃ c, s.contexts.fdContexts[p]? = some c := ⟨_, List.getElem?_eq_getElem hlt⟩
  have hsame : ∀ {contexts'}, contexts' = s.contexts → s.contexts.SameFds contexts' ∧
      ∀ q e, s.live q e = contexts'.registered q e := by
    rintro contexts' rfl
    exact ⟨rfl, h.live⟩
  cases op with
  | addEvent fd e cb scheduler fiber =>
    obtain rfl : p = fd := hp
    obtain ⟨⟨io, r⟩, hadd, rfl⟩ := exists_of_map_eq_ok hrun
    simp only [FdTable.answered, hadd]
    have hens : s.contexts.ensureContext p = s.contexts := by
      rw [IOManager.ensureContext, if_pos hlt]
    simp only [IOManager.addEvent, hens, hc] at hadd
    split at hadd
    · cases hadd
    · split at hadd
      · cases hadd
        exact hsame rfl
      · split at hadd
        · cases hadd
        · cases hadd
          refine ⟨IOManager.sameFds_set hc rfl ?_, fun q f => ?_⟩
          · exact FdContext.setContext_fd _ _ _
          · change setLive s.live p [e] true q f = _
            rw [IOManager.registered_set hc rfl, setLive, h.live, FdContext.setContext_events]
            by_cases hq : q = p
            · subst hq
              by_cases hf : f = e
              · subst hf
                simp
              · simp [hf, EventMask.has_insert_ne _ hf, IOManager.registered, hc]
            · simp [hq]
  | delEvent fd e =>
    obtain rfl : p = fd := hp
    cases hrun
    simp only [FdTable.answered, IOManager.delEvent, hc]
    split
    · exact hsame rfl
    · refine ⟨IOManager.sameFds_set hc rfl (FdContext.setContext_fd _ _ _), fun q f => ?_⟩
      simp only [if_true]
      rw [IOManager.registered_set hc rfl, setLive, h.live, FdContext.resetContext,
        FdContext.setContext_events]
      by_cases hq : q = p
      · subst hq
        by_cases hf : f = e
        · subst hf
          simp
        · simp [hf, EventMask.has_erase_ne _ hf, IOManager.registered, hc]
      · simp [hq]
  | cancelEvent fd e =>
    obtain rfl : p = fd := hp
    obtain ⟨⟨io, r⟩, hcancel, rfl⟩ := exists_of_map_eq_ok hrun
    simp only [FdTable.answered, hcancel]
    simp only [IOManager.cancelEvent, hc] at hcancel
    split at hcancel
    · cases hcancel
      exact hsame rfl
    · obtain ⟨t, htrig, heq⟩ := exists_of_map_eq_ok hcancel
      cases heq
      obtain ⟨hfds, hreg⟩ := IOManager.registered_triggerAt hc htrig
      refine ⟨hfds, fun q f => ?_⟩
      change setLive s.live p [e] false q f = _
      rw [hreg, setLive, h.live]
      by_cases hq : q = p <;> by_cases hf : f = e <;> simp [hq, hf]
  | cancelAll fd =>
    obtain rfl : p = fd := hp
    obtain ⟨⟨io, r⟩, hcancel, rfl⟩ := exists_of_map_eq_ok hrun
    simp only [FdTable.answered, hcancel]
    simp only [IOManager.cancelAll, hc] at hcancel
    split at hcancel
    · cases hcancel
      exact hsame rfl
    · obtain ⟨t, htrig, heq⟩ := exists_of_map_eq_ok hcancel
      cases heq
      obtain ⟨hfds, hreg⟩ := IOManager.registered_triggerAt hc htrig
      refine ⟨hfds, fun q f => ?_⟩
      change setLive s.live p [.read, .write] false q f = _
      rw [hreg, setLive, h.live]
      by_cases hq : q = p
      · subst hq
        have hmem := EventMask.mem_toList (m := c.events) (e := f)
        have hreg' : s.contexts.registered q f = c.events.has f := by
          simp [IOManager.registered, hc]
        cases hhas : c.events.has f <;> cases f <;> simp_all
      · simp [hq]

/-- A change of the contexts that keeps their descriptors, and says what is live. -/
theorem Inv.withContexts (h : s.Inv) {live : Nat → Event → Bool}
    (hfds : s.contexts.SameFds contexts) (hlive : ∀ q e, live q e = contexts.registered q e) :
    ({ s with contexts := contexts, live := live } : FdTable).Inv where
  table := by rw [hfds.length]; exact h.table
  size := by rw [hfds.length]; exact h.size
  fd := by rw [hfds.length, ← h.fd]; exact hfds
  growing := h.growing
  holds w op q hw := by rw [hfds.length]; exact h.holds w op q hw
  live := hlive

theorem Inv.setThread (h : s.Inv) {w : Nat} {x : TableThread}
    (hgrow : ∀ op, x = .growing op → 2 ≤ op.fd)
    (hholds : ∀ op q, x = .holds op q → q = op.fd ∧ q < s.contexts.fdContexts.length) :
    (s.setThread w x).Inv where
  table := h.table
  size := h.size
  fd := h.fd
  growing w' op hw := by
    simp only [FdTable.setThread] at hw
    by_cases hww : w' = w
    · subst hww
      rw [Function.update_self] at hw
      exact hgrow op hw
    · rw [Function.update_of_ne hww] at hw
      exact h.growing w' op hw
  holds w' op q hw := by
    simp only [FdTable.setThread] at hw
    by_cases hww : w' = w
    · subst hww
      rw [Function.update_self] at hw
      exact hholds op q hw
    · rw [Function.update_of_ne hww] at hw
      exact h.holds w' op q hw
  live := h.live

theorem Inv.getElem?_table (h : s.Inv) {fd p : Nat} (hp : s.table[fd]? = some p) :
    p = fd ∧ fd < s.contexts.fdContexts.length := by
  rw [h.table, List.getElem?_eq_some_iff] at hp
  obtain ⟨hlt, hp⟩ := hp
  rw [List.getElem_range] at hp
  exact ⟨hp.symm, by simpa using hlt⟩

theorem Inv.start (h : s.Inv) {w : Nat} {op : TableOp} (hs : s.start w op = some t) : t.Inv := by
  simp only [FdTable.start] at hs
  split at hs
  · cases hs
    cases htable : s.table[op.fd]? with
    | some p =>
      obtain ⟨rfl, hlt⟩ := h.getElem?_table htable
      refine h.setThread (fun op' hop => by cases hop) fun op' q hop => ?_
      cases hop
      exact ⟨rfl, hlt⟩
    | none =>
      have hfd : 2 ≤ op.fd := by
        have hsize := h.size
        rw [List.getElem?_eq_none_iff, h.table, List.length_range] at htable
        omega
      cases op with
      | addEvent fd e cb scheduler fiber =>
        refine h.setThread (fun op' hop => ?_) fun op' q hop => by cases hop
        cases hop
        exact hfd
      | delEvent fd e | cancelEvent fd e | cancelAll fd =>
        exact h.setThread (fun op' hop => by cases hop) fun op' q hop => by cases hop
  · cases hs

/-- A table that does not shrink has the contexts of the one that is grown at once. -/
theorem Inv.contexts_contextResize (h : s.Inv) {size : Nat} (hsize : s.table.length ≤ size) :
    s.contexts.fdContexts.length ≤ size ∧
      (s.contextResize size).contexts = s.contexts.contextResize size := by
  have htlen : s.table.length = s.contexts.fdContexts.length := by
    rw [h.table, List.length_range]
  refine ⟨htlen ▸ hsize, ?_⟩
  simp only [FdTable.contextResize, IOManager.contextResize, htlen]
  rw [List.take_of_length_le (htlen ▸ hsize)]

/-- A table that does not shrink gets contexts behind those it has. -/
theorem Inv.contextResize (h : s.Inv) {size : Nat} (hsize : s.table.length ≤ size) :
    (s.contextResize size).Inv ∧ s.Kept (s.contextResize size) ∧
      (s.contextResize size).contexts.fdContexts.length = size := by
  have htlen : s.table.length = s.contexts.fdContexts.length := by
    rw [h.table, List.length_range]
  have htake : s.table.take size = s.table := List.take_of_length_le hsize
  have hlen : (s.contextResize size).contexts.fdContexts.length = size := by
    simp only [FdTable.contextResize, List.length_append, List.length_map, List.length_range']
    omega
  have hrange : List.range s.contexts.fdContexts.length ++
      List.range' s.contexts.fdContexts.length (size - s.table.length) = List.range size := by
    have happend := List.range'_append_1 (s := 0) (m := s.contexts.fdContexts.length)
      (n := size - s.contexts.fdContexts.length)
    rw [Nat.zero_add, Nat.add_sub_cancel' (by omega)] at happend
    rw [htlen, List.range_eq_range', List.range_eq_range', happend]
  have hcontexts := (h.contexts_contextResize hsize).2
  refine ⟨⟨?_, ?_, ?_, h.growing, fun w op q hw => ?_, fun fd e => ?_⟩, fun fd p hp => ?_, hlen⟩
  · rw [hlen]
    simp only [FdTable.contextResize]
    rw [htake, ← hrange, ← h.table]
  · have := h.size
    omega
  · rw [hlen]
    simp only [FdTable.contextResize, List.map_append, List.map_map, h.fd]
    rw [← hrange, htlen]
    congr 1
    exact List.map_id _
  · obtain ⟨hq, hlt⟩ := h.holds w op q hw
    exact ⟨hq, by omega⟩
  · change s.live fd e = _
    rw [h.live, hcontexts, (IOManager.unchanged_contextResize (htlen ▸ hsize)).registered]
  · simp only [FdTable.contextResize]
    rw [htake]
    exact (List.getElem?_append_left (List.getElem?_eq_some_iff.mp hp).1).trans hp

theorem Inv.grow (h : s.Inv) {w : Nat} (hg : TableGuard s (.grow w)) (hs : s.grow w = some t) :
    t.Inv ∧ s.Kept t := by
  simp only [FdTable.grow] at hs
  split at hs
  · rename_i op hgrowing
    have hsize := h.growing w op hgrowing
    obtain ⟨hinv, hkept, hlen⟩ := h.contextResize (hg op hgrowing)
    obtain ⟨p, hp, rfl⟩ := Option.map_eq_some_iff.mp hs
    obtain ⟨rfl, hlt⟩ := hinv.getElem?_table hp
    refine ⟨hinv.setThread (fun op' hop => by cases hop) fun op' q hop => ?_, hkept⟩
    cases hop
    exact ⟨rfl, hlt⟩
  · cases hs

theorem Inv.perform (h : s.Inv) {w : Nat} (hs : s.perform w ctl = some t) : t.Inv ∧ s.Kept t := by
  simp only [FdTable.perform] at hs
  split at hs
  · rename_i op p hw
    obtain ⟨hp, hlt⟩ := h.holds w op p hw
    obtain ⟨io, hrun, rfl⟩ := Option.map_eq_some_iff.mp hs
    have hok : s.contexts.apply (op.action p ctl) = .ok io := by
      cases happly : s.contexts.apply (op.action p ctl) with
      | error err => rw [happly] at hrun; cases hrun
      | ok io' => rw [happly] at hrun; cases hrun; rfl
    obtain ⟨hfds, hlive⟩ := h.answered hp hlt hok
    refine ⟨(h.withContexts hfds hlive).setThread (fun op' hop => ?_) fun op' q hop => ?_,
      fun _ _ h => h⟩
    · cases hop
    · cases hop
  · cases hs

theorem Inv.fd_of_getElem? (h : s.Inv) {c : FdContext}
    (hc : s.contexts.fdContexts[p]? = some c) : c.fd = p := by
  obtain ⟨hlt, hget⟩ := List.getElem?_eq_some_iff.mp hc
  have hfd := List.getElem_of_eq h.fd (i := p) (by simpa using hlt)
  rwa [List.getElem_map, List.getElem_range, hget] at hfd

theorem Inv.dispatch (h : s.Inv) {ev : EpollEvents} (hs : s.dispatch p ev ctl = some t) :
    t.Inv ∧ s.Kept t := by
  simp only [FdTable.dispatch] at hs
  split at hs
  · cases hs
  · rename_i c hc
    have hfd := h.fd_of_getElem? hc
    obtain ⟨io, hrun, rfl⟩ := Option.map_eq_some_iff.mp hs
    have hok : s.contexts.dispatch p ev ctl = .ok io := by
      cases happly : s.contexts.dispatch p ev ctl with
      | error err => rw [happly] at hrun; cases hrun
      | ok io' => rw [happly] at hrun; cases hrun; rfl
    suffices hspec : s.contexts.SameFds io ∧ ∀ q e,
        setLive s.live c.fd (s.contexts.firing p ev ctl) false q e = io.registered q e from
      ⟨h.withContexts hspec.1 hspec.2, fun _ _ h => h⟩
    have hresult := IOManager.resultOk_of_dispatch_ok hok
    simp only [IOManager.dispatch, hc] at hok
    split at hok
    · rename_i hskip
      cases hok
      have hnone : s.contexts.firing p ev ctl = [] := by
        simp only [IOManager.firing, hc]
        cases ctl with
        | false => rfl
        | true => exact EventMask.toList_of_isNone (by simpa using hskip)
      exact ⟨rfl, fun q e => by simp [hnone, setLive, h.live]⟩
    · rename_i hmeet
      simp only [Bool.or_eq_true, Bool.not_eq_true', not_or, Bool.not_eq_false] at hmeet
      have hsub : ev.realEvents.subset c.events = true := by
        rcases hresult c hc with h0 | h0 | h0
        · rw [hmeet.2] at h0; cases h0
        · exact absurd h0 hmeet.1
        · exact h0
      have hfiring : s.contexts.firing p ev ctl = ev.realEvents.toList := by
        simp [IOManager.firing, hc, hmeet.2, EventMask.inter_of_subset hsub]
      obtain ⟨hfds, hreg⟩ := IOManager.registered_triggerAt hc hok
      refine ⟨hfds, fun q e => ?_⟩
      rw [hreg, setLive, h.live, hfiring, hfd]
      by_cases hq : q = p
      · by_cases he : e ∈ ev.realEvents.toList <;> simp [hq, he]
      · simp [hq]

theorem Inv.initial : FdTable.initial.Inv where
  table := by decide
  size := by decide
  fd := by decide
  growing _ _ h := by cases h
  holds _ _ _ h := by cases h
  live fd e := by
    have hu : ({} : IOManager).Unchanged (IOManager.contextResize {} 32) :=
      IOManager.unchanged_contextResize (by simp)
    change FdTable.initial.live fd e = (IOManager.contextResize {} 32).registered fd e
    rw [hu.registered]
    rfl

theorem Inv.step (h : s.Inv) {a : TableAction} (hg : TableGuard s a) (hs : s.step a = some t) :
    t.Inv ∧ s.Kept t := by
  cases a with
  | start w op =>
    refine ⟨h.start hs, ?_⟩
    simp only [FdTable.step, FdTable.start] at hs
    split at hs
    · cases hs
      exact fun _ _ h => h
    · cases hs
  | grow w => exact h.grow hg hs
  | perform w ctl => exact h.perform hs
  | dispatch p ev ctl => exact h.dispatch hs

theorem Inv.of_reach (h : tableMachine.Reach TableGuard s) : s.Inv := by
  refine h.invariant (P := FdTable.Inv) ?_ ?_
  · rintro s rfl
    exact Inv.initial
  · intro s a t hs hg hstep
    exact (hs.step hg hstep).1

theorem Inv.lt_of_live (h : s.Inv) {fd : Nat} {e : Event} (hlive : s.live fd e = true) :
    fd < s.contexts.fdContexts.length := by
  by_contra hge
  rw [h.live, IOManager.registered, List.getElem?_eq_none (by omega)] at hlive
  cases hlive

theorem Inv.finds (h : s.Inv) : s.Finds := by
  intro fd e hlive
  have hlt := h.lt_of_live hlive
  rw [h.live] at hlive
  refine ⟨fd, ?_, hlive, fun w op q hw hfd => ?_⟩
  · rw [h.table, List.getElem?_range hlt]
  · rw [(h.holds w op q hw).1, hfd]

end FdTable

/-- On any number of threads, in every state of a run whose steps meet the guard, every event
    added and not since removed or triggered is found, and no step makes the table smaller or
    gives a descriptor another context. -/
theorem table_found {s : FdTable} (h : tableMachine.Reach TableGuard s) :
    s.Finds ∧ ∀ a t, TableGuard s a → s.step a = some t → s.Kept t :=
  ⟨(FdTable.Inv.of_reach h).finds, fun _ _ hg hs => ((FdTable.Inv.of_reach h).step hg hs).2⟩

/-- The state behind a run from the initial table. -/
def FdTable.after (as : List TableAction) : FdTable := (tableMachine.run .initial as).getD .initial

theorem FdTable.run_after {as : List TableAction}
    (h : (tableMachine.run .initial as).isSome = true) :
    tableMachine.run .initial as = some (.after as) := by
  obtain ⟨s, hs⟩ := Option.isSome_iff_exists.mp h
  rw [FdTable.after, hs]
  rfl

/-- A thread adds an event for descriptor 100, which lies beyond the table. -/
def addBeyond : List TableAction :=
  [.start 0 (.addEvent 100 .read none (some 0) 1), .grow 0, .perform 0 true]

theorem table_found_addBeyond : (FdTable.after addBeyond).Finds := by
  refine (table_found (.of_run addBeyond (.init rfl) ⟨trivial, fun s hs => ⟨?_, fun _ _ =>
    ⟨trivial, fun _ _ => trivial⟩⟩⟩ (FdTable.run_after (by decide +kernel)))).1
  cases hs
  intro op hop
  cases hop
  decide

/-- Two threads find descriptors 100 and 40 beyond the table.  The first grows it to 150
    entries and registers its event; the second resizes it to 60. -/
def shrunk : List TableAction :=
  [.start 0 (.addEvent 100 .read none (some 0) 1), .start 1 (.addEvent 40 .read none (some 0) 2),
    .grow 0, .perform 0 true, .grow 1]

theorem table_shrinks : ¬ ∀ s, tableMachine.Reachable s →
    s.Finds ∧ ∀ a t, s.step a = some t → s.Kept t := by
  intro h
  have hreach : tableMachine.Reachable (.after shrunk) :=
    .of_run shrunk rfl (FdTable.run_after (by decide +kernel))
  have hlive : (FdTable.after shrunk).live 100 .read = true := by decide +kernel
  have hbeyond : (FdTable.after shrunk).table[100]? = none := by decide +kernel
  obtain ⟨p, hp, -⟩ := (h _ hreach).1 100 .read hlive
  rw [hbeyond] at hp
  cases hp

end CppServerFramework.Async

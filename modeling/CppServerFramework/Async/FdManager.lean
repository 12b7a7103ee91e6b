import CppServerFramework.Async.FdCtx
import CppServerFramework.Misc.CInt
import CppServerFramework.Misc.Machine
import Mathlib.Logic.Function.Basic

/-!
# The contexts of descriptors

`FdManager` (`async/fdmanager.cpp:76-113`) with any number of threads.  `get` looks for a context
under the read lock and makes one under the write lock: these are two steps, with those of other
threads between them.  A pointer is the number of an object.
-/

namespace CppServerFramework.Async
open CInt

/-- An `FdCtx` with its timeouts. -/
structure FdObject where
  ctx : FdCtx
  recvTimeout : UInt64 := -1
  sendTimeout : UInt64 := -1
  deriving DecidableEq

/-- `SO_RCVTIMEO` -/
def soRcvtimeo : Int := 20

namespace FdObject

/-- `FdCtx::setTimeout` (`fdmanager.cpp:57-64`) -/
def setTimeout (o : FdObject) (type : Int) (v : UInt64) : FdObject :=
  if type = soRcvtimeo then { o with recvTimeout := v } else { o with sendTimeout := v }

/-- `FdCtx::getTimeout` (`fdmanager.cpp:66-73`) -/
def getTimeout (o : FdObject) (type : Int) : UInt64 :=
  if type = soRcvtimeo then o.recvTimeout else o.sendTimeout

/-- `FdCtx::setUserNonblock` -/
def setUserNonblock (o : FdObject) (v : Bool) : FdObject :=
  { o with ctx := { o.ctx with userNonblock := v } }

end FdObject

/-- `m_datas`, and the objects made so far. -/
structure FdManager where
  datas : List (Option Nat) := List.replicate 64 none
  objects : List FdObject := []
  deriving DecidableEq

/-- What `get` does when it leaves the read lock. -/
inductive FdCheck where
  | returns (ptr : Option Nat)
  | creates
  deriving DecidableEq, Repr

namespace FdManager

variable (m : FdManager)

/-- `(int)m_datas.size() <= fd` -/
def tooShort (fd : Nat) : Bool := intOfSize m.datas.length ≤ (fd : Int)

/-- The pointer at an index. -/
def entry (fd : Nat) : Option Nat := (m.datas[fd]?).join

/-- The part of `get` under the read lock (`fdmanager.cpp:85-96`), and the indices it uses. -/
def check (fd : Nat) (autoCreate : Bool) : FdCheck × List Nat :=
  if m.tooShort fd then (if autoCreate then .creates else .returns none, [])
  else if (m.entry fd).isSome || !autoCreate then (.returns (m.entry fd), [fd])
  else (.creates, [fd])

/-- `m_datas.resize(n)` -/
def resize (n : Nat) : List (Option Nat) :=
  m.datas.take n ++ List.replicate (n - m.datas.length) none

/-- The part of `get` under the write lock (`fdmanager.cpp:98-105`), with a new object.  The
    vector grows to `fd * 1.5`. -/
def create (fd : Nat) (o : FdObject) : FdManager :=
  let datas := if m.tooShort fd then m.resize (fd * 3 / 2) else m.datas
  { datas := datas.set fd (some m.objects.length), objects := m.objects ++ [o] }

/-- The size of the vector when the new object is entered. -/
def createSize (fd : Nat) : Nat :=
  (if m.tooShort fd then m.resize (fd * 3 / 2) else m.datas).length

/-- `del` (`fdmanager.cpp:107-113`) -/
def del (fd : Nat) : FdManager :=
  if m.tooShort fd then m else { m with datas := m.datas.set fd none }

/-- A change of the object behind a pointer. -/
def modify (ptr : Nat) (f : FdObject → FdObject) : FdManager :=
  { m with objects := m.objects.modify ptr f }

end FdManager

/-- A thread whose `get` is between its two parts has its descriptor in `pending`.  `dels` are the
    calls of `del` for each descriptor.  `returned` has the pointers that `get` has returned, with
    the descriptor and the calls of `del` before, and `accesses` the indices of `m_datas` that were
    used, with its size. -/
structure FdRun where
  manager : FdManager := {}
  pending : Nat → Option Nat := fun _ => none
  dels : Nat → Nat := fun _ => 0
  returned : List (Nat × Nat × Nat) := []
  accesses : List (Nat × Nat) := []

inductive FdAction where
  /-- thread `t` calls `get` -/
  | get (t fd : Nat) (autoCreate : Bool)
  /-- it goes on under the write lock; `fdStat` is the answer of `fstat` -/
  | create (t : Nat) (fdStat : Option Bool)
  | del (fd : Nat)
  /-- somebody stores a timeout or the flag through a pointer -/
  | setTimeout (ptr : Nat) (type : Int) (v : UInt64)
  | setUserNonblock (ptr : Nat) (v : Bool)
  deriving DecidableEq

def fdMachine : Machine FdRun FdAction where
  init r := r = {}
  step r
    | .get t fd autoCreate =>
      if (r.pending t).isSome then none
      else
        let (result, used) := r.manager.check fd autoCreate
        let r := { r with accesses := r.accesses ++ used.map fun i => (i, r.manager.datas.length) }
        match result with
        | .creates => some { r with pending := Function.update r.pending t (some fd) }
        | .returns none => some r
        | .returns (some ptr) => some { r with returned := r.returned ++ [(fd, r.dels fd, ptr)] }
    | .create t fdStat =>
      (r.pending t).map fun fd =>
        { r with
          manager := r.manager.create fd { ctx := (FdCtx.init fdStat 0 0).1 }
          pending := Function.update r.pending t none
          returned := r.returned ++ [(fd, r.dels fd, r.manager.objects.length)]
          accesses := r.accesses ++ [(fd, r.manager.createSize fd)] }
    | .del fd =>
      some { r with
        manager := r.manager.del fd
        dels := Function.update r.dels fd (r.dels fd + 1)
        accesses :=
          if r.manager.tooShort fd then r.accesses
          else r.accesses ++ [(fd, r.manager.datas.length)] }
    | .setTimeout ptr type v =>
      some { r with manager := r.manager.modify ptr (·.setTimeout type v) }
    | .setUserNonblock ptr v =>
      some { r with manager := r.manager.modify ptr (·.setUserNonblock v) }

namespace FdRun

/-- Between two calls of `del` for a descriptor every `get` returns the same object, so that what is
    stored through one pointer is seen through the others; and no index is beyond the vector. -/
structure OneObject (r : FdRun) : Prop where
  same : ∀ fd n p q, (fd, n, p) ∈ r.returned → (fd, n, q) ∈ r.returned → p = q
  timeout : ∀ fd n p q type v, (fd, n, p) ∈ r.returned → (fd, n, q) ∈ r.returned →
    ∃ o, (r.manager.modify p (·.setTimeout type v)).objects[q]? = some o ∧ o.getTimeout type = v
  nonblock : ∀ fd n p q v, (fd, n, p) ∈ r.returned → (fd, n, q) ∈ r.returned →
    ∃ o, (r.manager.modify p (·.setUserNonblock v)).objects[q]? = some o ∧ o.ctx.userNonblock = v
  inside : ∀ a ∈ r.accesses, a.1 < a.2

/-- A call that has found no context goes on while there is still none. -/
def StillAbsent (r : FdRun) : FdAction → Prop
  | .create t _ => ∀ fd, r.pending t = some fd → r.manager.entry fd = none
  | _ => True

/-- The vector does not grow beyond the sizes that an `int` holds. -/
def IntSized (r : FdRun) : FdAction → Prop
  | .create t _ => ∀ fd, r.pending t = some fd → fd * 3 / 2 < 2 ^ 31
  | _ => True

/-- What is entered has been returned since the last `del`, and the other way round. -/
structure Inv (r : FdRun) : Prop where
  same : ∀ fd n p q, (fd, n, p) ∈ r.returned → (fd, n, q) ∈ r.returned → p = q
  past : ∀ fd n p, (fd, n, p) ∈ r.returned → n ≤ r.dels fd
  entered : ∀ fd p, r.manager.entry fd = some p ↔ (fd, r.dels fd, p) ∈ r.returned
  made : ∀ fd n p, (fd, n, p) ∈ r.returned → p < r.manager.objects.length
  inside : ∀ a ∈ r.accesses, a.1 < a.2
  size : 64 ≤ r.manager.datas.length ∧ r.manager.datas.length < 2 ^ 31

end FdRun

namespace FdManager

variable {m : FdManager} {fd fd' : Nat} {o : FdObject}

theorem tooShort_iff (h : m.datas.length < 2 ^ 31) :
    m.tooShort fd = true ↔ m.datas.length ≤ fd := by
  rw [tooShort, intOfSize_of_lt h, decide_eq_true_eq]
  omega

theorem length_resize {n : Nat} (h : m.datas.length ≤ n) : (m.resize n).length = n := by
  rw [resize, List.take_of_length_le h, List.length_append, List.length_replicate]
  omega

theorem getElem?_resize {n i : Nat} (h : m.datas.length ≤ n) :
    (m.resize n)[i]?.join = m.datas[i]?.join := by
  rw [resize, List.take_of_length_le h]
  rcases Nat.lt_or_ge i m.datas.length with hlt | hge
  · rw [List.getElem?_append_left hlt]
  · rw [List.getElem?_append_right hge, List.getElem?_eq_none hge, List.getElem?_replicate]
    split <;> rfl

/-- The vector in which the new object is entered holds the index, and what there was. -/
theorem createSize_spec (hsize : 64 ≤ m.datas.length ∧ m.datas.length < 2 ^ 31)
    (hfd : fd * 3 / 2 < 2 ^ 31) :
    fd < m.createSize fd ∧ 64 ≤ m.createSize fd ∧ m.createSize fd < 2 ^ 31 := by
  rw [createSize]
  split
  · rename_i hshort
    rw [tooShort_iff hsize.2] at hshort
    rw [length_resize (by omega)]
    omega
  · rename_i hshort
    rw [tooShort_iff hsize.2] at hshort
    omega

theorem length_create : (m.create fd o).datas.length = m.createSize fd := by
  rw [create, createSize]
  simp

theorem entry_create (hsize : 64 ≤ m.datas.length ∧ m.datas.length < 2 ^ 31)
    (hfd : fd * 3 / 2 < 2 ^ 31) (fd' : Nat) :
    (m.create fd o).entry fd' = if fd' = fd then some m.objects.length else m.entry fd' := by
  have hlt := (createSize_spec hsize hfd).1
  rw [entry, entry, create, List.getElem?_set]
  by_cases heq : fd' = fd
  · subst heq
    rw [createSize] at hlt
    simp [hlt]
  · rw [if_neg (Ne.symm heq), if_neg heq]
    split
    · rename_i hshort
      rw [tooShort_iff hsize.2] at hshort
      exact getElem?_resize (by omega)
    · rfl

theorem length_del : (m.del fd).datas.length = m.datas.length := by
  rw [del]
  split
  · rfl
  · simp

theorem entry_del (hsize : m.datas.length < 2 ^ 31) (fd' : Nat) :
    (m.del fd).entry fd' = if fd' = fd then none else m.entry fd' := by
  rw [del]
  split
  · rename_i hshort
    rw [tooShort_iff hsize] at hshort
    by_cases heq : fd' = fd
    · rw [if_pos heq, entry, heq, List.getElem?_eq_none hshort]
      rfl
    · rw [if_neg heq]
  · rw [entry, entry, List.getElem?_set]
    by_cases heq : fd' = fd
    · subst heq
      simp only [if_true]
      split <;> rfl
    · rw [if_neg (Ne.symm heq), if_neg heq]

theorem check_accesses (hsize : m.datas.length < 2 ^ 31) {autoCreate : Bool} :
    ∀ i ∈ (m.check fd autoCreate).2, i < m.datas.length := by
  intro i hi
  rw [check] at hi
  split at hi
  · cases hi
  · rename_i hshort
    rw [tooShort_iff hsize] at hshort
    split at hi
    · obtain rfl := List.mem_singleton.mp hi
      omega
    · obtain rfl := List.mem_singleton.mp hi
      omega

theorem check_returns {autoCreate : Bool} {ptr : Nat}
    (h : (m.check fd autoCreate).1 = .returns (some ptr)) : m.entry fd = some ptr := by
  rw [check] at h
  split at h
  · split at h <;> cases h
  · split at h
    · exact FdCheck.returns.inj h
    · cases h

@[simp] theorem entry_modify (ptr : Nat) (f : FdObject → FdObject) (fd : Nat) :
    (m.modify ptr f).entry fd = m.entry fd := rfl

@[simp] theorem length_objects_modify (ptr : Nat) (f : FdObject → FdObject) :
    (m.modify ptr f).objects.length = m.objects.length := List.length_modify f m.objects ptr

/-- What is stored through a pointer is there. -/
theorem objects_modify {ptr : Nat} (h : ptr < m.objects.length) (f : FdObject → FdObject) :
    ∃ o, (m.modify ptr f).objects[ptr]? = some (f o) := by
  refine ⟨m.objects[ptr], ?_⟩
  rw [modify, List.getElem?_modify_eq, List.getElem?_eq_getElem h]
  rfl

end FdManager

theorem FdObject.getTimeout_setTimeout (o : FdObject) (type : Int) (v : UInt64) :
    (o.setTimeout type v).getTimeout type = v := by
  rw [FdObject.setTimeout, FdObject.getTimeout]
  split <;> rfl

namespace FdRun

variable {r s : FdRun}

theorem Inv.oneObject (h : r.Inv) : r.OneObject where
  same := h.same
  timeout fd n p q type v hp hq := by
    obtain rfl := h.same fd n p q hp hq
    obtain ⟨o, ho⟩ := FdManager.objects_modify (h.made fd n p hp) (·.setTimeout type v)
    exact ⟨_, ho, o.getTimeout_setTimeout type v⟩
  nonblock fd n p q v hp hq := by
    obtain rfl := h.same fd n p q hp hq
    obtain ⟨o, ho⟩ := FdManager.objects_modify (h.made fd n p hp) (·.setUserNonblock v)
    exact ⟨_, ho, rfl⟩
  inside := h.inside

/-- The invariant does not look at what waits between the two parts of `get`. -/
theorem Inv.pending (h : r.Inv) (pending : Nat → Option Nat) : Inv { r with pending } :=
  { h with }

theorem Inv.used (h : r.Inv) {accesses : List (Nat × Nat)} (ha : ∀ a ∈ accesses, a.1 < a.2) :
    Inv { r with accesses := r.accesses ++ accesses } :=
  { h with
    inside := fun a hmem => (List.mem_append.mp hmem).elim (h.inside a) (ha a) }

/-- A context that is there has been returned already. -/
theorem Inv.returns (h : r.Inv) {fd ptr : Nat} (hptr : r.manager.entry fd = some ptr) :
    Inv { r with returned := r.returned ++ [(fd, r.dels fd, ptr)] } := by
  have hmem : ∀ x, x ∈ r.returned ++ [(fd, r.dels fd, ptr)] ↔ x ∈ r.returned := by
    intro x
    refine ⟨fun hx => ?_, List.mem_append_left _⟩
    rcases List.mem_append.mp hx with hx | hx
    · exact hx
    · rw [List.mem_singleton.mp hx]
      exact (h.entered fd ptr).mp hptr
  constructor
  · simpa only [hmem] using h.same
  · simpa only [hmem] using h.past
  · simpa only [hmem] using h.entered
  · simpa only [hmem] using h.made
  · exact h.inside
  · exact h.size

/-- The new object is the only one since the last `del`. -/
theorem Inv.creates (h : r.Inv) {fd : Nat} {o : FdObject} (habsent : r.manager.entry fd = none)
    (hfd : fd * 3 / 2 < 2 ^ 31) :
    Inv { r with
      manager := r.manager.create fd o
      returned := r.returned ++ [(fd, r.dels fd, r.manager.objects.length)] } := by
  have hnew : ∀ q, (fd, r.dels fd, q) ∉ r.returned := by
    intro q hq
    have := (h.entered fd q).mpr hq
    rw [habsent] at this
    cases this
  have hsize := FdManager.createSize_spec h.size hfd
  constructor
  · intro fd' n p q hp hq
    rw [List.mem_append, List.mem_singleton] at hp hq
    rcases hp with hp | hp <;> rcases hq with hq | hq
    · exact h.same fd' n p q hp hq
    · cases hq
      exact absurd hp (hnew p)
    · cases hp
      exact absurd hq (hnew q)
    · cases hp
      cases hq
      rfl
  · intro fd' n p hp
    rw [List.mem_append, List.mem_singleton] at hp
    rcases hp with hp | hp
    · exact h.past fd' n p hp
    · cases hp
      exact Nat.le_refl _
  · intro fd' p
    rw [FdManager.entry_create h.size hfd, List.mem_append, List.mem_singleton]
    by_cases heq : fd' = fd
    · subst heq
      simp [hnew, eq_comm]
    · simp [heq, h.entered fd' p]
  · intro fd' n p hp
    have hlen : (r.manager.create fd o).objects.length = r.manager.objects.length + 1 := by
      rw [FdManager.create]
      simp
    rw [List.mem_append, List.mem_singleton] at hp
    rw [hlen]
    rcases hp with hp | hp
    · exact Nat.lt_succ_of_lt (h.made fd' n p hp)
    · cases hp
      exact Nat.lt_succ_self _
  · exact h.inside
  · rw [FdManager.length_create]
    exact hsize.2

theorem Inv.deletes (h : r.Inv) (fd : Nat) :
    Inv { r with
      manager := r.manager.del fd
      dels := Function.update r.dels fd (r.dels fd + 1) } := by
  have hobjects : (r.manager.del fd).objects = r.manager.objects := by
    rw [FdManager.del]
    split <;> rfl
  constructor
  · exact h.same
  · intro fd' n p hp
    have hle := h.past fd' n p hp
    by_cases heq : fd' = fd
    · subst heq
      simp only [Function.update_self]
      exact Nat.le_succ_of_le hle
    · simpa only [Function.update_of_ne heq] using hle
  · intro fd' p
    rw [FdManager.entry_del h.size.2]
    by_cases heq : fd' = fd
    · subst heq
      simp only [if_true, Function.update_self]
      refine ⟨nofun, fun hp => ?_⟩
      have := h.past fd' _ p hp
      omega
    · simp only [if_neg heq, Function.update_of_ne heq]
      exact h.entered fd' p
  · rw [hobjects]
    exact h.made
  · exact h.inside
  · rw [FdManager.length_del]
    exact h.size

theorem Inv.modifies (h : r.Inv) (ptr : Nat) (f : FdObject → FdObject) :
    Inv { r with manager := r.manager.modify ptr f } :=
  { h with
    entered := h.entered
    made := by
      rw [FdManager.length_objects_modify]
      exact h.made }

theorem Inv.step (h : r.Inv) {a : FdAction} (habsent : r.StillAbsent a) (hsized : r.IntSized a)
    (hs : fdMachine.step r a = some s) : s.Inv := by
  cases a with
  | get t fd autoCreate =>
    simp only [fdMachine] at hs
    split at hs
    · cases hs
    · have hused : ∀ a ∈ (r.manager.check fd autoCreate).2.map fun i =>
          (i, r.manager.datas.length), a.1 < a.2 := by
        intro a ha
        obtain ⟨i, hi, rfl⟩ := List.mem_map.mp ha
        exact FdManager.check_accesses h.size.2 i hi
      have hnext := h.used hused
      generalize hc : (r.manager.check fd autoCreate).1 = result at hs
      match result with
      | .creates =>
        cases hs
        exact hnext.pending _
      | .returns none =>
        cases hs
        exact hnext
      | .returns (some ptr) =>
        cases hs
        exact hnext.returns (FdManager.check_returns hc)
  | create t fdStat =>
    obtain ⟨fd, hfd, heq⟩ := Option.map_eq_some_iff.mp hs
    cases heq
    have hcreated := h.creates (o := { ctx := (FdCtx.init fdStat 0 0).1 }) (habsent fd hfd)
      (hsized fd hfd)
    have hsize := FdManager.createSize_spec h.size (hsized fd hfd)
    refine (hcreated.used ?_).pending _
    intro a ha
    obtain rfl := List.mem_singleton.mp ha
    exact hsize.1
  | del fd =>
    cases hs
    have hdeleted := h.deletes fd
    cases hshort : r.manager.tooShort fd with
    | true => exact hdeleted
    | false =>
      refine hdeleted.used ?_
      intro a ha
      obtain rfl := List.mem_singleton.mp ha
      rw [← Bool.not_eq_true, FdManager.tooShort_iff h.size.2] at hshort
      exact Nat.lt_of_not_le hshort
  | setTimeout ptr type v =>
    cases hs
    exact h.modifies ptr _
  | setUserNonblock ptr v =>
    cases hs
    exact h.modifies ptr _

/-- A call that goes on when there is a context makes a second one. -/
theorem Inv.replaces (h : r.Inv) {a : FdAction} (hs : fdMachine.step r a = some s)
    (hnot : ¬r.StillAbsent a) : ¬s.OneObject := by
  intro hone
  cases a with
  | create t fdStat =>
    simp only [StillAbsent, not_forall] at hnot
    obtain ⟨fd, hfd, hentry⟩ := hnot
    obtain ⟨p, hp⟩ := Option.ne_none_iff_exists'.mp hentry
    have hmem := (h.entered fd p).mp hp
    obtain ⟨fd', hfd', heq⟩ := Option.map_eq_some_iff.mp hs
    cases hfd.symm.trans hfd'
    cases heq
    have hsame := hone.same fd (r.dels fd) p r.manager.objects.length
      (List.mem_append_left _ hmem) (List.mem_append_right _ (List.mem_singleton_self _))
    have hlt := h.made fd _ p hmem
    omega
  | _ => exact hnot trivial

end FdRun

/-- In every run in which each call that has found no context goes on while there is still none, and
    in which the vector keeps to the sizes of an `int`, each descriptor has one object between two
    calls of `del`; a call that goes on later makes a second one. -/
theorem fd_oneObject (r : FdRun)
    (h : fdMachine.Reach (fun r a => r.StillAbsent a ∧ r.IntSized a) r) :
    r.OneObject ∧
      ∀ a s, fdMachine.step r a = some s → ¬r.StillAbsent a → ¬s.OneObject := by
  have hinv : r.Inv := by
    apply Machine.Reach.invariant _ _ h
    · rintro _ rfl
      constructor
      · simp
      · simp
      · intro fd p
        have hnone : ({} : FdManager).entry fd = none := by
          rw [FdManager.entry, List.getElem?_replicate]
          split <;> rfl
        exact iff_of_false (by rw [hnone]; nofun) (List.not_mem_nil)
      · simp
      · simp
      · decide
    · exact fun r a s hr ha hs => hr.step ha.1 ha.2 hs
  exact ⟨hinv.oneObject, fun a s hs hnot => hinv.replaces hs hnot⟩

/-- A second thread asks for the descriptor when the first one has made the context. -/
theorem fd_oneObject_example :
    ∃ r, fdMachine.Reach (fun r a => r.StillAbsent a ∧ r.IntSized a) r ∧ r.OneObject ∧
      r.returned = [(70, 0, 0), (70, 0, 0), (70, 1, 1)] := by
  have hrun : ((fdMachine.run {} [.get 1 70 true, .create 1 (some true), .get 2 70 true, .del 70,
      .get 2 70 true, .create 2 (some true)]).any fun r =>
        r.returned = [(70, 0, 0), (70, 0, 0), (70, 1, 1)]) = true := by
    decide
  obtain ⟨r, hr, hreturned⟩ := (Option.any_eq_true _ _).mp hrun
  have hreach : fdMachine.Reach (fun r a => r.StillAbsent a ∧ r.IntSized a) r := by
    refine Machine.Reach.of_run _ (.init rfl) ?_ hr
    refine .cons ⟨trivial, trivial⟩ rfl (.cons ⟨fun fd hfd => ?_, fun fd hfd => ?_⟩ rfl
      (.cons ⟨trivial, trivial⟩ rfl (.cons ⟨trivial, trivial⟩ rfl (.cons ⟨trivial, trivial⟩ rfl
        (.cons ⟨fun fd hfd => ?_, fun fd hfd => ?_⟩ rfl trivial)))))
    · cases hfd
      rfl
    · cases hfd
      decide
    · cases hfd
      rfl
    · cases hfd
      decide
  exact ⟨r, hreach, (fd_oneObject r hreach).1, by simpa using hreturned⟩

/-- Two threads ask for the descriptor before either has made the context: each gets a context of
    its own. -/
theorem fd_concurrent :
    ∃ r, fdMachine.Reachable r ∧ r.returned = [(70, 0, 0), (70, 0, 1)] ∧ ¬r.OneObject := by
  have hrun : ((fdMachine.run {} [.get 1 70 true, .get 2 70 true, .create 1 (some true),
      .create 2 (some true)]).any fun r => r.returned = [(70, 0, 0), (70, 0, 1)]) = true := by
    decide
  obtain ⟨r, hr, hr'⟩ := (Option.any_eq_true _ _).mp hrun
  have hreturned : r.returned = [(70, 0, 0), (70, 0, 1)] := of_decide_eq_true hr'
  refine ⟨r, Machine.Reachable.of_run _ rfl hr, hreturned, fun h => ?_⟩
  have := h.same 70 0 0 1 (by simp [hreturned]) (by simp [hreturned])
  omega

end CppServerFramework.Async

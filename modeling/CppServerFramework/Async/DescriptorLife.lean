import CppServerFramework.Async.FdManager
import Mathlib.Data.List.Nodup

/-!
# The life of a descriptor

The hooked `socket`, `accept`, `close` and `setsockopt` (`async/hook.cpp:301-325, 367-382, 496-510`)
with any number of threads.  The kernel gives the number of a closed descriptor out again, and
`FdManager` is indexed by that number: a call is a number of steps, with those of other threads
between them.
-/

namespace CppServerFramework.Async

/-- `FdCtx::close` (`fdmanager.h:21`) -/
def FdObject.close (o : FdObject) : FdObject := { o with ctx := { o.ctx with isClosed := true } }

/-- The context of a descriptor that `fstat` says is a socket (`fdmanager.cpp:9-19`). -/
def FdObject.ofSocket : FdObject := { ctx := (FdCtx.init (some true) 0 0).1 }

theorem FdManager.check_of_none {m : FdManager} {fd : Nat} (h : m.entry fd = none) :
    (m.check fd true).1 = .creates := by
  rw [FdManager.check]
  split
  · rfl
  · simp [h]

/-- How far the call of a thread has come. -/
inductive CallPhase where
  | idle
  /-- `socket_f` or `accept_f` has returned, `get(fd, true)` is to come -/
  | opened (fd : Nat)
  /-- `get(fd, true)` has left the read lock without a context -/
  | creating (fd : Nat)
  /-- `setsockopt` has got a context, when the descriptor had been opened `generation` times -/
  | storing (fd generation ptr : Nat)
  /-- `close` has got a context -/
  | closing (fd ptr : Nat)
  /-- it has closed the context -/
  | deleting (fd : Nat)
  /-- `close_f` is to come -/
  | releasing (fd : Nat)
  deriving DecidableEq, Repr

/-- The descriptor that a call opens or closes. -/
def CallPhase.fd : CallPhase → Option Nat
  | .idle | .storing .. => none
  | .opened fd | .creating fd | .closing fd _ | .deleting fd | .releasing fd => some fd

/-- `generation` counts how often the kernel has given a number out, and `nonblock` is its flag.
    A descriptor is `owned` from the end of the call that has opened it to the beginning of the one
    that closes it.  `made` has the descriptor and the generation of each object, and `stored` what
    `setsockopt` has stored for them. -/
structure DescriptorRun where
  manager : FdManager := {}
  phase : Nat → CallPhase := fun _ => .idle
  generation : Nat → Nat := fun _ => 0
  isOpen : Nat → Bool := fun _ => false
  nonblock : Nat → Bool := fun _ => false
  owned : Nat → Bool := fun _ => false
  made : List (Nat × Nat) := []
  stored : List ((Nat × Nat) × Int × UInt64) := []

inductive CallAction where
  /-- thread `t` calls `socket` or, where `accepted` holds, `accept`, and the kernel gives it `fd`;
      `hook` is `t_hook_enable` -/
  | opens (t : Nat) (accepted hook : Bool) (fd : Nat)
  /-- the part of `get(fd, true)` under the read lock -/
  | check (t : Nat)
  /-- the part under the write lock -/
  | create (t : Nat)
  /-- thread `t` calls `setsockopt` with a timeout -/
  | setsockopt (t fd : Nat)
  | store (t : Nat) (type : Int) (v : UInt64)
  /-- thread `t` calls `close` -/
  | close (t : Nat) (hook : Bool) (fd : Nat)
  | closeCtx (t : Nat)
  | del (t : Nat)
  | closeFile (t : Nat)
  deriving DecidableEq

namespace DescriptorRun

variable (r : DescriptorRun)

def goto (t : Nat) (p : CallPhase) : DescriptorRun :=
  { r with phase := Function.update r.phase t p }

def setOwned (fd : Nat) (b : Bool) : DescriptorRun :=
  { r with owned := Function.update r.owned fd b }

/-- The kernel gives a number out. -/
def openFile (fd : Nat) : DescriptorRun :=
  { r with
    generation := Function.update r.generation fd (r.generation fd + 1)
    isOpen := Function.update r.isOpen fd true
    nonblock := Function.update r.nonblock fd false }

/-- The kernel takes it back. -/
def closeFile (fd : Nat) : DescriptorRun :=
  { r with isOpen := Function.update r.isOpen fd false }

/-- A new context is entered, which has made the socket non-blocking. -/
def enter (fd : Nat) : DescriptorRun :=
  { r with
    manager := r.manager.create fd .ofSocket
    nonblock := Function.update r.nonblock fd true
    made := r.made ++ [(fd, r.generation fd)] }

def store (key : Nat × Nat) (ptr : Nat) (type : Int) (v : UInt64) : DescriptorRun :=
  { r with
    manager := r.manager.modify ptr (·.setTimeout type v)
    stored := r.stored ++ [(key, type, v)] }

def closeCtx (ptr : Nat) : DescriptorRun := { r with manager := r.manager.modify ptr (·.close) }

def del (fd : Nat) : DescriptorRun := { r with manager := r.manager.del fd }

end DescriptorRun

def descriptorMachine : Machine DescriptorRun CallAction where
  init r := r = {}
  step r
    | .opens t accepted hook fd =>
      -- `accept` calls `get(fd, true)` also without the hook
      if r.phase t = .idle ∧ r.isOpen fd = false then
        some (if accepted || hook then (r.openFile fd).goto t (.opened fd)
          else (r.openFile fd).setOwned fd true)
      else none
    | .check t =>
      match r.phase t with
      | .opened fd =>
        match (r.manager.check fd true).1 with
        | .creates => some (r.goto t (.creating fd))
        | .returns _ => some ((r.goto t .idle).setOwned fd true)
      | _ => none
    | .create t =>
      match r.phase t with
      | .creating fd => some (((r.goto t .idle).enter fd).setOwned fd true)
      | _ => none
    | .setsockopt t fd =>
      if r.phase t = .idle then
        match (r.manager.check fd false).1 with
        | .returns (some ptr) => some (r.goto t (.storing fd (r.generation fd) ptr))
        | _ => some r
      else none
    | .store t type v =>
      match r.phase t with
      | .storing fd generation ptr => some ((r.goto t .idle).store (fd, generation) ptr type v)
      | _ => none
    | .close t hook fd =>
      if r.phase t = .idle then
        if hook then
          match (r.manager.check fd false).1 with
          | .returns (some ptr) => some ((r.setOwned fd false).goto t (.closing fd ptr))
          | _ => some ((r.setOwned fd false).goto t (.releasing fd))
        else some ((r.setOwned fd false).goto t (.releasing fd))
      else none
    | .closeCtx t =>
      match r.phase t with
      | .closing fd ptr => some ((r.goto t (.deleting fd)).closeCtx ptr)
      | _ => none
    | .del t =>
      match r.phase t with
      | .deleting fd => some ((r.del fd).goto t (.releasing fd))
      | _ => none
    | .closeFile t =>
      match r.phase t with
      | .releasing fd => some ((r.goto t .idle).closeFile fd)
      | _ => none

/-- The two timeouts of a socket: `SO_RCVTIMEO`, and any other number stands for `SO_SNDTIMEO`. -/
def sameTimeout (a b : Int) : Bool := (a = soRcvtimeo) = (b = soRcvtimeo)

/-- What was stored last under a key, or the timeout of a new context. -/
def lastStored (stored : List ((Nat × Nat) × Int × UInt64)) (key : Nat × Nat) (type : Int) :
    UInt64 :=
  ((stored.filter fun s =>
    s.1 = key && sameTimeout s.2.1 type).getLast?.map fun s => s.2.2).getD (-1)

namespace DescriptorRun

/-- `socket` and `close` are hooked, nobody closes a descriptor that is not his, and the numbers are
    not so large that the vector outgrows an `int`. -/
def Orderly (r : DescriptorRun) : CallAction → Prop
  | .opens _ accepted hook _ => (accepted || hook) = true
  | .close _ hook fd => hook = true ∧ r.owned fd = true
  | .create t => ∀ fd, r.phase t = .creating fd → fd * 3 / 2 < 2 ^ 31
  | _ => True

/-- A descriptor that a call has returned is non-blocking and has an open context, which no other
    descriptor has; its timeouts are those stored for this descriptor, and not for an earlier one
    with the same number.  A number that is not open has no context, and `get` makes a context only
    where there is none. -/
structure OwnContexts (r : DescriptorRun) : Prop where
  owned : ∀ fd, r.owned fd = true → r.nonblock fd = true ∧ ∃ ptr o, r.manager.entry fd = some ptr ∧
    r.manager.objects[ptr]? = some o ∧ o.ctx.isSocket = true ∧ o.ctx.isClosed = false ∧
    ∀ type, o.getTimeout type = lastStored r.stored (fd, r.generation fd) type
  own : ∀ fd fd' ptr, r.manager.entry fd = some ptr → r.manager.entry fd' = some ptr → fd = fd'
  gone : ∀ fd, r.isOpen fd = false → r.manager.entry fd = none
  absent : ∀ t fd, r.phase t = .creating fd → r.manager.entry fd = none

/-- Each number is in the hands of one call at most, and the contexts that are entered belong to
    the descriptors that are open now. -/
structure Inv (r : DescriptorRun) : Prop where
  size : 64 ≤ r.manager.datas.length ∧ r.manager.datas.length < 2 ^ 31
  length : r.made.length = r.manager.objects.length
  nodup : r.made.Nodup
  past : ∀ key ∈ r.made, key.2 ≤ r.generation key.1
  entered : ∀ fd ptr, r.manager.entry fd = some ptr →
    r.isOpen fd = true ∧ r.nonblock fd = true ∧ r.made[ptr]? = some (fd, r.generation fd)
  busy : ∀ t fd, (r.phase t).fd = some fd → r.isOpen fd = true ∧ r.owned fd = false
  alone : ∀ t t' fd, (r.phase t).fd = some fd → (r.phase t').fd = some fd → t = t'
  opening : ∀ t fd, r.phase t = .opened fd ∨ r.phase t = .creating fd →
    r.manager.entry fd = none ∧ (fd, r.generation fd) ∉ r.made
  closing : ∀ t fd ptr, r.phase t = .closing fd ptr → r.manager.entry fd = some ptr
  releasing : ∀ t fd, r.phase t = .releasing fd → r.manager.entry fd = none
  storing : ∀ t fd generation ptr, r.phase t = .storing fd generation ptr →
    r.made[ptr]? = some (fd, generation)
  owned : ∀ fd, r.owned fd = true → r.isOpen fd = true ∧ ∃ ptr o, r.manager.entry fd = some ptr ∧
    r.manager.objects[ptr]? = some o ∧ o.ctx.isClosed = false
  stored : ∀ s ∈ r.stored, s.1 ∈ r.made
  values : ∀ (ptr : Nat) (o : FdObject) (key : Nat × Nat), r.manager.objects[ptr]? = some o →
    r.made[ptr]? = some key →
      o.ctx.isSocket = true ∧ ∀ type, o.getTimeout type = lastStored r.stored key type

variable {r s : DescriptorRun} {t fd ptr : Nat}

/-- A number that no call has in its hands and nobody owns. -/
structure Free (r : DescriptorRun) (fd : Nat) : Prop where
  entry : r.manager.entry fd = none
  idle : ∀ t, (r.phase t).fd ≠ some fd
  owned : r.owned fd = false

theorem phase_goto (p : CallPhase) (t' : Nat) :
    (r.goto t p).phase t' = if t' = t then p else r.phase t' := Function.update_apply ..

theorem fd_goto (p : CallPhase) (t' : Nat) :
    ((r.goto t p).phase t').fd = if t' = t then p.fd else (r.phase t').fd := by
  rw [phase_goto]
  split <;> rfl

/-- What the next phase of a thread has to meet. -/
structure Enters (r : DescriptorRun) (t : Nat) (p : CallPhase) : Prop where
  busy : ∀ fd, p.fd = some fd → r.isOpen fd = true ∧ r.owned fd = false ∧
    ∀ t', (r.phase t').fd = some fd → t' = t
  opening : ∀ fd, p = .opened fd ∨ p = .creating fd →
    r.manager.entry fd = none ∧ (fd, r.generation fd) ∉ r.made
  closing : ∀ fd ptr, p = .closing fd ptr → r.manager.entry fd = some ptr
  releasing : ∀ fd, p = .releasing fd → r.manager.entry fd = none
  storing : ∀ fd generation ptr, p = .storing fd generation ptr →
    r.made[ptr]? = some (fd, generation)

theorem Enters.idle (r : DescriptorRun) (t : Nat) : Enters r t .idle where
  busy _ h := by cases h
  opening _ h := by rcases h with h | h <;> cases h
  closing _ _ h := by cases h
  releasing _ h := by cases h
  storing _ _ _ h := by cases h

theorem Inv.goto (h : r.Inv) {p : CallPhase} (hp : Enters r t p) : (r.goto t p).Inv := by
  refine { h with busy := ?_, alone := ?_, opening := ?_, closing := ?_, releasing := ?_,
                  storing := ?_ }
  · intro t' fd hfd
    rw [fd_goto] at hfd
    split at hfd
    · exact ⟨(hp.busy fd hfd).1, (hp.busy fd hfd).2.1⟩
    · exact h.busy t' fd hfd
  · intro t₁ t₂ fd h₁ h₂
    rw [fd_goto] at h₁ h₂
    split at h₁ <;> split at h₂
    · rename_i e₁ e₂
      rw [e₁, e₂]
    · rename_i e₁ _
      rw [e₁, (hp.busy fd h₁).2.2 t₂ h₂]
    · rename_i _ e₂
      rw [e₂, (hp.busy fd h₂).2.2 t₁ h₁]
    · exact h.alone t₁ t₂ fd h₁ h₂
  · intro t' fd hfd
    rw [phase_goto] at hfd
    split at hfd
    · exact hp.opening fd hfd
    · exact h.opening t' fd hfd
  · intro t' fd ptr hfd
    rw [phase_goto] at hfd
    split at hfd
    · exact hp.closing fd ptr hfd
    · exact h.closing t' fd ptr hfd
  · intro t' fd hfd
    rw [phase_goto] at hfd
    split at hfd
    · exact hp.releasing fd hfd
    · exact h.releasing t' fd hfd
  · intro t' fd generation ptr hfd
    rw [phase_goto] at hfd
    split at hfd
    · exact hp.storing fd generation ptr hfd
    · exact h.storing t' fd generation ptr hfd

/-- A call that goes on keeps the number it has in its hands. -/
theorem Inv.keeps (h : r.Inv) {p : CallPhase} (hbusy : (r.phase t).fd = some fd)
    (hp : p.fd = some fd) (fd' : Nat) (hfd : p.fd = some fd') :
    r.isOpen fd' = true ∧ r.owned fd' = false ∧ ∀ t', (r.phase t').fd = some fd' → t' = t := by
  obtain rfl : fd = fd' := Option.some.inj (hp.symm.trans hfd)
  exact ⟨(h.busy t fd hbusy).1, (h.busy t fd hbusy).2, fun t' ht' => h.alone t' t fd ht' hbusy⟩

/-- After a call nothing is in its hands. -/
theorem Inv.free_of_goto (h : r.Inv) (hfd : (r.phase t).fd = some fd)
    (hentry : r.manager.entry fd = none) : Free (r.goto t .idle) fd where
  entry := hentry
  idle t' ht' := by
    rw [fd_goto] at ht'
    split at ht'
    · cases ht'
    · rename_i hne
      exact hne (h.alone t' t fd ht' hfd)
  owned := (h.busy t fd hfd).2

/-- A number that is not open is in nobody's hands. -/
theorem Inv.free_of_closed (h : r.Inv) (hclosed : r.isOpen fd = false) : Free r fd where
  entry := by
    cases he : r.manager.entry fd with
    | none => rfl
    | some ptr =>
      have hopen := (h.entered fd ptr he).1
      rw [hclosed] at hopen
      cases hopen
  idle t ht := by
    have hopen := (h.busy t fd ht).1
    rw [hclosed] at hopen
    cases hopen
  owned := by
    cases ho : r.owned fd with
    | false => rfl
    | true =>
      have hopen := (h.owned fd ho).1
      rw [hclosed] at hopen
      cases hopen

theorem Free.ne_of_fd (hf : Free r fd) {t fd' : Nat} (hfd : (r.phase t).fd = some fd') :
    fd' ≠ fd := fun heq => hf.idle t (heq ▸ hfd)

theorem Free.ne_of_entry (hf : Free r fd) {fd' : Nat} (he : r.manager.entry fd' = some ptr) :
    fd' ≠ fd := by
  rintro rfl
  rw [hf.entry] at he
  cases he

theorem Free.ne_of_owned (hf : Free r fd) {fd' : Nat} (ho : r.owned fd' = true) : fd' ≠ fd := by
  rintro rfl
  rw [hf.owned] at ho
  cases ho

theorem CallPhase.fd_opening {p : CallPhase} (h : p = .opened fd ∨ p = .creating fd) :
    p.fd = some fd := by
  rcases h with rfl | rfl <;> rfl

theorem Inv.openFile (h : r.Inv) (hf : Free r fd) : (r.openFile fd).Inv := by
  have hgen : ∀ fd', fd' ≠ fd →
      Function.update r.generation fd (r.generation fd + 1) fd' = r.generation fd' :=
    fun fd' hne => Function.update_of_ne hne ..
  refine { h with past := ?_, entered := ?_, busy := ?_, opening := ?_, owned := ?_ }
  · intro key hkey
    have hle := h.past key hkey
    by_cases heq : key.1 = fd
    · have hself : (r.openFile fd).generation key.1 = r.generation key.1 + 1 := by
        rw [heq]
        exact Function.update_self ..
      omega
    · exact Nat.le_trans hle (Nat.le_of_eq (hgen _ heq).symm)
  · intro fd' ptr he
    have hne := hf.ne_of_entry he
    obtain ⟨h1, h2, h3⟩ := h.entered fd' ptr he
    refine ⟨?_, ?_, ?_⟩
    · exact (Function.update_of_ne hne ..).trans h1
    · exact (Function.update_of_ne hne ..).trans h2
    · rw [show (r.openFile fd).generation fd' = r.generation fd' from hgen fd' hne]
      exact h3
  · intro t fd' hfd
    exact ⟨(Function.update_of_ne (hf.ne_of_fd hfd) ..).trans (h.busy t fd' hfd).1,
      (h.busy t fd' hfd).2⟩
  · intro t fd' hfd
    have hne := hf.ne_of_fd (CallPhase.fd_opening hfd)
    rw [show (r.openFile fd).generation fd' = r.generation fd' from hgen fd' hne]
    exact h.opening t fd' hfd
  · intro fd' ho
    exact ⟨(Function.update_of_ne (hf.ne_of_owned ho) ..).trans (h.owned fd' ho).1,
      (h.owned fd' ho).2⟩

theorem Inv.closeFile (h : r.Inv) (hf : Free r fd) : (r.closeFile fd).Inv := by
  refine { h with entered := ?_, busy := ?_, owned := ?_ }
  · intro fd' ptr he
    obtain ⟨h1, h2, h3⟩ := h.entered fd' ptr he
    exact ⟨(Function.update_of_ne (hf.ne_of_entry he) ..).trans h1, h2, h3⟩
  · intro t fd' hfd
    exact ⟨(Function.update_of_ne (hf.ne_of_fd hfd) ..).trans (h.busy t fd' hfd).1,
      (h.busy t fd' hfd).2⟩
  · intro fd' ho
    exact ⟨(Function.update_of_ne (hf.ne_of_owned ho) ..).trans (h.owned fd' ho).1,
      (h.owned fd' ho).2⟩

theorem Inv.disown (h : r.Inv) : (r.setOwned fd false).Inv := by
  have howned : ∀ fd', (r.setOwned fd false).owned fd' = true → r.owned fd' = true := by
    intro fd' ho
    by_cases heq : fd' = fd
    · rw [heq, show (r.setOwned fd false).owned fd = false from Function.update_self ..] at ho
      cases ho
    · exact (Function.update_of_ne heq ..).symm.trans ho
  refine { h with busy := ?_, owned := fun fd' ho => h.owned fd' (howned fd' ho) }
  intro t fd' hfd
  obtain ⟨h1, h2⟩ := h.busy t fd' hfd
  refine ⟨h1, Bool.eq_false_iff.mpr fun ho => ?_⟩
  rw [howned fd' ho] at h2
  cases h2

theorem Inv.own (h : r.Inv) {o : FdObject} (hidle : ∀ t, (r.phase t).fd ≠ some fd)
    (hopen : r.isOpen fd = true) (he : r.manager.entry fd = some ptr)
    (ho : r.manager.objects[ptr]? = some o) (hnew : o.ctx.isClosed = false) :
    (r.setOwned fd true).Inv := by
  refine { h with busy := ?_, owned := ?_ }
  · intro t fd' hfd
    have hne : fd' ≠ fd := fun heq => hidle t (heq ▸ hfd)
    exact ⟨(h.busy t fd' hfd).1, (Function.update_of_ne hne ..).trans (h.busy t fd' hfd).2⟩
  · intro fd' howned
    by_cases heq : fd' = fd
    · rw [heq]
      exact ⟨hopen, ptr, o, he, ho, hnew⟩
    · exact h.owned fd' ((Function.update_of_ne heq ..).symm.trans howned)

/-- The context of a number that has none is made. -/
theorem Inv.enter (h : r.Inv) (hf : Free r fd) (hopen : r.isOpen fd = true)
    (hnew : (fd, r.generation fd) ∉ r.made) (hfd : fd * 3 / 2 < 2 ^ 31) :
    (r.enter fd).Inv ∧ (r.enter fd).manager.entry fd = some r.manager.objects.length ∧
      (r.enter fd).manager.objects[r.manager.objects.length]? = some .ofSocket := by
  have hstored : ∀ type, lastStored r.stored (fd, r.generation fd) type = -1 := by
    intro type
    have hnone : (r.stored.filter fun s =>
        s.1 = (fd, r.generation fd) && sameTimeout s.2.1 type) = [] := by
      rw [List.filter_eq_nil_iff]
      intro s hs heq
      rw [Bool.and_eq_true, decide_eq_true_eq] at heq
      exact hnew (heq.1 ▸ h.stored s hs)
    rw [lastStored, hnone]
    rfl
  have hentry : ∀ fd', (r.enter fd).manager.entry fd' =
      if fd' = fd then some r.manager.objects.length else r.manager.entry fd' :=
    FdManager.entry_create h.size hfd
  have hobjects : (r.enter fd).manager.objects = r.manager.objects ++ [.ofSocket] := rfl
  have hold : ∀ {ptr : Nat} {key : Nat × Nat}, r.made[ptr]? = some key →
      (r.made ++ [(fd, r.generation fd)])[ptr]? = some key := fun hkey =>
    (List.getElem?_append_left (List.getElem?_eq_some_iff.mp hkey).1).trans hkey
  have hlast : (r.made ++ [(fd, r.generation fd)])[r.manager.objects.length]? =
      some (fd, r.generation fd) := by
    rw [← h.length, List.getElem?_concat_length]
  refine ⟨{ h with size := ?_, length := ?_, nodup := ?_, past := ?_, entered := ?_, opening := ?_,
                   closing := ?_, releasing := ?_, storing := ?_, owned := ?_, stored := ?_,
                   values := ?_ },
    ?_, ?_⟩
  · rw [show (r.enter fd).manager.datas.length = _ from FdManager.length_create]
    exact (FdManager.createSize_spec h.size hfd).2
  · rw [hobjects, List.length_append, ← h.length]
    exact List.length_append
  · exact List.nodup_append.mpr ⟨h.nodup, by simp, fun a ha b hb heq =>
      hnew (List.mem_singleton.mp hb ▸ heq ▸ ha)⟩
  · intro key hkey
    rcases List.mem_append.mp hkey with hkey | hkey
    · exact h.past key hkey
    · rw [List.mem_singleton.mp hkey]
      exact Nat.le_refl _
  · intro fd' ptr he
    rw [hentry] at he
    split at he
    · rename_i heq
      cases he
      rw [heq]
      exact ⟨hopen, Function.update_self .., hlast⟩
    · rename_i hne
      obtain ⟨h1, h2, h3⟩ := h.entered fd' ptr he
      exact ⟨h1, (Function.update_of_ne hne ..).trans h2, hold h3⟩
  · intro t fd' hphase
    have hne := hf.ne_of_fd (CallPhase.fd_opening hphase)
    obtain ⟨h1, h2⟩ := h.opening t fd' hphase
    refine ⟨(hentry fd').trans ((if_neg hne).trans h1), fun hmem => ?_⟩
    rcases List.mem_append.mp hmem with hmem | hmem
    · exact h2 hmem
    · exact hne (congrArg Prod.fst (List.mem_singleton.mp hmem))
  · intro t fd' ptr hphase
    have hfd : (r.phase t).fd = some fd' := by
      rw [show r.phase t = _ from hphase]
      rfl
    have hne := hf.ne_of_fd hfd
    exact (hentry fd').trans ((if_neg hne).trans (h.closing t fd' ptr hphase))
  · intro t fd' hphase
    have hfd : (r.phase t).fd = some fd' := by
      rw [show r.phase t = _ from hphase]
      rfl
    have hne := hf.ne_of_fd hfd
    exact (hentry fd').trans ((if_neg hne).trans (h.releasing t fd' hphase))
  · intro t fd' generation ptr hphase
    exact hold (h.storing t fd' generation ptr hphase)
  · intro fd' ho
    obtain ⟨h1, ptr, o, he, ho', hc⟩ := h.owned fd' ho
    refine ⟨h1, ptr, o, (hentry fd').trans ((if_neg (hf.ne_of_owned ho)).trans he), ?_, hc⟩
    rw [hobjects, List.getElem?_append_left (List.getElem?_eq_some_iff.mp ho').1]
    exact ho'
  · intro s hs
    exact List.mem_append_left _ (h.stored s hs)
  · intro ptr o key ho hkey
    rw [hobjects] at ho
    rcases Nat.lt_or_ge ptr r.manager.objects.length with hlt | hge
    · rw [List.getElem?_append_left hlt] at ho
      rw [show (r.enter fd).made = r.made ++ [(fd, r.generation fd)] from rfl,
        List.getElem?_append_left (h.length ▸ hlt)] at hkey
      exact h.values ptr o key ho hkey
    · rw [List.getElem?_append_right hge] at ho
      rw [List.getElem?_singleton] at ho
      split at ho
      · rename_i hzero
        cases ho
        obtain rfl : ptr = r.manager.objects.length := by omega
        rw [show (r.enter fd).made = r.made ++ [(fd, r.generation fd)] from rfl, hlast] at hkey
        cases hkey
        refine ⟨rfl, fun type => ?_⟩
        rw [show (r.enter fd).stored = r.stored from rfl, hstored type, FdObject.getTimeout]
        split <;> rfl
      · cases ho
  · rw [hentry, if_pos rfl]
  · rw [hobjects, List.getElem?_concat_length]

theorem getElem?_modify_some {l : List FdObject} {f : FdObject → FdObject} {i j : Nat}
    {o : FdObject} (h : (l.modify i f)[j]? = some o) :
    ∃ o', l[j]? = some o' ∧ o = if i = j then f o' else o' := by
  rw [List.getElem?_modify] at h
  cases hl : l[j]? with
  | none =>
    rw [hl] at h
    cases h
  | some o' =>
    rw [hl] at h
    refine ⟨o', rfl, ?_⟩
    split at h
    · rename_i heq
      rw [if_pos heq]
      exact (Option.some.inj h).symm
    · rename_i hne
      rw [if_neg hne]
      exact (Option.some.inj h).symm

theorem getTimeout_setTimeout_of (o : FdObject) (type type' : Int) (v : UInt64) :
    (o.setTimeout type v).getTimeout type' =
      if sameTimeout type type' then v else o.getTimeout type' := by
  unfold FdObject.setTimeout FdObject.getTimeout sameTimeout
  by_cases h1 : type = soRcvtimeo <;> by_cases h2 : type' = soRcvtimeo <;> simp [h1, h2]

theorem lastStored_concat (stored : List ((Nat × Nat) × Int × UInt64)) (key key' : Nat × Nat)
    (type type' : Int) (v : UInt64) :
    lastStored (stored ++ [(key, type, v)]) key' type' =
      if key = key' ∧ sameTimeout type type' = true then v else lastStored stored key' type' := by
  rw [lastStored, lastStored, List.filter_append]
  by_cases h : key = key' ∧ sameTimeout type type' = true
  · rw [if_pos h, List.filter_cons_of_pos (by simp [h])]
    simp
  · have hnone : [(key, type, v)].filter
        (fun s => s.1 = key' && sameTimeout s.2.1 type') = [] := by
      simpa using h
    rw [if_neg h, hnone, List.append_nil]

/-- Two objects are not made for the same descriptor. -/
theorem Inv.ptr_eq (h : r.Inv) {ptr' : Nat} {key : Nat × Nat} (h1 : r.made[ptr]? = some key)
    (h2 : r.made[ptr']? = some key) : ptr = ptr' := by
  obtain ⟨hlt, h1⟩ := List.getElem?_eq_some_iff.mp h1
  obtain ⟨hlt', h2⟩ := List.getElem?_eq_some_iff.mp h2
  exact (List.Nodup.getElem_inj_iff h.nodup).mp (h1.trans h2.symm)

theorem Inv.store (h : r.Inv) {key : Nat × Nat} (hkey : r.made[ptr]? = some key) (type : Int)
    (v : UInt64) : (r.store key ptr type v).Inv := by
  refine { h with length := ?_, owned := ?_, stored := ?_, values := ?_ }
  · exact h.length.trans (FdManager.length_objects_modify ..).symm
  · intro fd' ho
    obtain ⟨h1, ptr', o, he, ho', hc⟩ := h.owned fd' ho
    refine ⟨h1, ptr', if ptr = ptr' then o.setTimeout type v else o, he, ?_, ?_⟩
    · rw [DescriptorRun.store, FdManager.modify, List.getElem?_modify, ho']
      split <;> rfl
    · split
      · rw [FdObject.setTimeout]
        split <;> exact hc
      · exact hc
  · intro s hs
    rcases List.mem_append.mp hs with hs | hs
    · exact h.stored s hs
    · rw [List.mem_singleton.mp hs]
      exact List.mem_of_getElem? hkey
  · intro ptr' o key' ho hkey'
    obtain ⟨o', ho', rfl⟩ := getElem?_modify_some ho
    obtain ⟨hsocket, hvalues⟩ := h.values ptr' o' key' ho' hkey'
    have heq : ptr = ptr' ↔ key = key' := by
      constructor
      · rintro rfl
        exact Option.some.inj (hkey.symm.trans hkey')
      · rintro rfl
        exact h.ptr_eq hkey hkey'
    refine ⟨?_, fun type' => ?_⟩
    · split
      · rw [FdObject.setTimeout]
        split <;> exact hsocket
      · exact hsocket
    · rw [show (r.store key ptr type v).stored = r.stored ++ [(key, type, v)] from rfl,
        lastStored_concat, ← hvalues]
      by_cases hptr : ptr = ptr'
      · rw [if_pos hptr, getTimeout_setTimeout_of]
        simp [heq.mp hptr]
      · rw [if_neg hptr, if_neg fun hand => hptr (heq.mpr hand.1)]

/-- The context of a descriptor that nobody owns is closed. -/
theorem Inv.closeCtx (h : r.Inv) (he : r.manager.entry fd = some ptr) (ho : r.owned fd = false) :
    (r.closeCtx ptr).Inv := by
  refine { h with length := ?_, owned := ?_, values := ?_ }
  · exact h.length.trans (FdManager.length_objects_modify ..).symm
  · intro fd' hown
    obtain ⟨h1, ptr', o, he', ho', hc⟩ := h.owned fd' hown
    refine ⟨h1, ptr', o, he', ?_, hc⟩
    have hne : ptr ≠ ptr' := by
      rintro rfl
      have hkey := (h.entered fd ptr he).2.2.symm.trans (h.entered fd' ptr he').2.2
      obtain rfl : fd = fd' := congrArg Prod.fst (Option.some.inj hkey)
      rw [show r.owned fd = true from hown] at ho
      cases ho
    rw [DescriptorRun.closeCtx, FdManager.modify, List.getElem?_modify, ho']
    simp [hne]
  · intro ptr' o key hmod hkey
    obtain ⟨o', ho', rfl⟩ := getElem?_modify_some hmod
    have hvalues := h.values ptr' o' key ho' hkey
    split
    · exact hvalues
    · exact hvalues

/-- The context is taken out of the vector by the only call that has the number in its hands. -/
theorem Inv.del (h : r.Inv) (hphase : r.phase t = .deleting fd) : (r.del fd).Inv := by
  have hfd : (r.phase t).fd = some fd := by
    rw [hphase]
    rfl
  have hentry : ∀ fd', (r.del fd).manager.entry fd' =
      if fd' = fd then none else r.manager.entry fd' := FdManager.entry_del h.size.2
  have hobjects : (r.del fd).manager.objects = r.manager.objects := by
    rw [DescriptorRun.del, FdManager.del]
    split <;> rfl
  have hold : ∀ {fd' ptr}, (r.del fd).manager.entry fd' = some ptr →
      r.manager.entry fd' = some ptr := by
    intro fd' ptr he
    rw [hentry] at he
    split at he
    · cases he
    · exact he
  have hnone : ∀ {fd'}, r.manager.entry fd' = none → (r.del fd).manager.entry fd' = none := by
    intro fd' he
    rw [hentry]
    split
    · rfl
    · exact he
  refine { h with size := ?_, length := ?_, entered := ?_, opening := ?_, closing := ?_,
                  releasing := ?_, owned := ?_, values := ?_ }
  · rw [show (r.del fd).manager.datas.length = _ from FdManager.length_del]
    exact h.size
  · exact h.length.trans (congrArg List.length hobjects).symm
  · exact fun fd' ptr he => h.entered fd' ptr (hold he)
  · exact fun t' fd' hp => ⟨hnone (h.opening t' fd' hp).1, (h.opening t' fd' hp).2⟩
  · intro t' fd' ptr hp
    refine (hentry fd').trans ((if_neg ?_).trans (h.closing t' fd' ptr hp))
    rintro rfl
    have hphase' : r.phase t' = .closing fd' ptr := hp
    have hsame := h.alone t' t fd' (by rw [hphase']; rfl) hfd
    rw [← hsame, hphase'] at hphase
    cases hphase
  · exact fun t' fd' hp => hnone (h.releasing t' fd' hp)
  · intro fd' ho
    obtain ⟨h1, ptr, o, he, ho', hc⟩ := h.owned fd' ho
    refine ⟨h1, ptr, o, (hentry fd').trans ((if_neg ?_).trans he), hobjects ▸ ho', hc⟩
    rintro rfl
    have hbusy := (h.busy t fd' hfd).2
    rw [show r.owned fd' = true from ho] at hbusy
    cases hbusy
  · intro ptr o key ho hkey
    rw [hobjects] at ho
    exact h.values ptr o key ho hkey

/-- A number without a context gets one and is then owned. -/
theorem Inv.creates (h : r.Inv) (hphase : r.phase t = .creating fd) (hfd : fd * 3 / 2 < 2 ^ 31) :
    (((r.goto t .idle).enter fd).setOwned fd true).Inv := by
  have hbusy : (r.phase t).fd = some fd := by
    rw [hphase]
    rfl
  obtain ⟨hentry, hnew⟩ := h.opening t fd (.inr hphase)
  have hopen := (h.busy t fd hbusy).1
  have hfree := h.free_of_goto hbusy hentry
  obtain ⟨hinv, he, ho⟩ := (h.goto (.idle r t)).enter hfree hopen hnew hfd
  exact hinv.own hfree.idle hopen he ho rfl

/-- What `close` meets when it has begun. -/
theorem Inv.closes (h : r.Inv) (hown : r.owned fd = true) {p : CallPhase}
    (hp : (∃ ptr, p = .closing fd ptr ∧ r.manager.entry fd = some ptr) ∨
      (p = .releasing fd ∧ r.manager.entry fd = none)) :
    ((r.setOwned fd false).goto t p).Inv := by
  have hbusy : p.fd = some fd := by
    rcases hp with ⟨ptr, rfl, -⟩ | ⟨rfl, -⟩ <;> rfl
  refine h.disown.goto ⟨?_, ?_, ?_, ?_, ?_⟩
  · intro fd' hfd
    obtain rfl : fd = fd' := Option.some.inj (hbusy.symm.trans hfd)
    refine ⟨(h.owned fd hown).1, Function.update_self .., fun t' ht' => ?_⟩
    have hfalse := (h.busy t' fd ht').2
    rw [hown] at hfalse
    cases hfalse
  · intro fd' hfd
    rcases hp with ⟨ptr, rfl, -⟩ | ⟨rfl, -⟩ <;> rcases hfd with hfd | hfd <;> cases hfd
  · intro fd' ptr' hfd
    rcases hp with ⟨ptr, rfl, he⟩ | ⟨rfl, -⟩
    · cases hfd
      exact he
    · cases hfd
  · intro fd' hfd
    rcases hp with ⟨ptr, rfl, -⟩ | ⟨rfl, he⟩
    · cases hfd
    · cases hfd
      exact he
  · intro fd' generation ptr' hfd
    rcases hp with ⟨ptr, rfl, -⟩ | ⟨rfl, -⟩ <;> cases hfd

theorem Inv.step (h : r.Inv) {a : CallAction} (ha : r.Orderly a)
    (hs : descriptorMachine.step r a = some s) : s.Inv := by
  cases a with
  | opens t accepted hook fd =>
    have hcontext : (accepted || hook) = true := ha
    simp only [descriptorMachine, hcontext, if_true] at hs
    split at hs
    · rename_i hidle
      cases hs
      have hfree := h.free_of_closed hidle.2
      refine (h.openFile hfree).goto ⟨?_, ?_, by simp, by simp, by simp⟩
      · intro fd' hfd
        cases hfd
        exact ⟨Function.update_self .., hfree.owned, fun t' ht' => absurd ht' (hfree.idle t')⟩
      · intro fd' hfd
        obtain rfl : fd = fd' := by
          rcases hfd with hfd | hfd
          · cases hfd
            rfl
          · cases hfd
        refine ⟨hfree.entry, fun hmem => ?_⟩
        have hle := h.past _ hmem
        have hself : (r.openFile fd).generation fd = r.generation fd + 1 :=
          Function.update_self ..
        rw [hself] at hle
        exact Nat.not_succ_le_self _ hle
    · cases hs
  | check t =>
    simp only [descriptorMachine] at hs
    split at hs
    · rename_i fd hphase
      have hopening := h.opening t fd (.inl hphase)
      rw [FdManager.check_of_none hopening.1] at hs
      cases hs
      have hbusy : (r.phase t).fd = some fd := by
        rw [hphase]
        rfl
      refine h.goto ⟨h.keeps hbusy rfl, fun fd' hfd => ?_, by simp, by simp, by simp⟩
      rcases hfd with hfd | hfd
      · cases hfd
      · cases hfd
        exact hopening
    · cases hs
  | create t =>
    simp only [descriptorMachine] at hs
    split at hs
    · rename_i fd hphase
      cases hs
      exact h.creates hphase (ha fd hphase)
    · cases hs
  | setsockopt t fd =>
    simp only [descriptorMachine] at hs
    split at hs
    · split at hs
      · rename_i ptr hcheck
        cases hs
        refine h.goto ⟨fun _ hfd => ?_, by simp, by simp, by simp, fun _ _ _ hp => ?_⟩
        · cases hfd
        · cases hp
          exact (h.entered fd ptr (FdManager.check_returns hcheck)).2.2
      · cases hs
        exact h
    · cases hs
  | store t type v =>
    simp only [descriptorMachine] at hs
    split at hs
    · rename_i fd generation ptr hphase
      cases hs
      exact (h.goto (.idle r t)).store (h.storing t fd generation ptr hphase) type v
    · cases hs
  | close t hook fd =>
    obtain ⟨rfl, hown⟩ := ha
    simp only [descriptorMachine, if_true] at hs
    obtain ⟨-, ptr, o, he, -⟩ := h.owned fd hown
    split at hs
    · split at hs
      · rename_i ptr' hcheck
        cases hs
        exact h.closes hown (.inl ⟨ptr', rfl, FdManager.check_returns hcheck⟩)
      · rename_i hnot
        refine absurd ?_ (hnot ptr)
        rw [FdManager.check, he]
        split
        · rename_i hshort
          rw [FdManager.tooShort_iff h.size.2] at hshort
          rw [FdManager.entry, List.getElem?_eq_none hshort] at he
          cases he
        · rfl
    · cases hs
  | closeCtx t =>
    simp only [descriptorMachine] at hs
    split at hs
    · rename_i fd ptr hphase
      cases hs
      have hbusy : (r.phase t).fd = some fd := by
        rw [hphase]
        rfl
      have hinv : (r.goto t (.deleting fd)).Inv :=
        h.goto ⟨h.keeps hbusy rfl, by simp, by simp, by simp, by simp⟩
      exact hinv.closeCtx (h.closing t fd ptr hphase) (h.busy t fd hbusy).2
    · cases hs
  | del t =>
    simp only [descriptorMachine] at hs
    split at hs
    · rename_i fd hphase
      cases hs
      have hbusy : (r.phase t).fd = some fd := by
        rw [hphase]
        rfl
      refine (h.del hphase).goto ⟨h.keeps hbusy rfl, by simp, by simp, fun fd' hfd => ?_, by simp⟩
      cases hfd
      exact (FdManager.entry_del h.size.2 fd).trans (if_pos rfl)
    · cases hs
  | closeFile t =>
    simp only [descriptorMachine] at hs
    split at hs
    · rename_i fd hphase
      cases hs
      have hbusy : (r.phase t).fd = some fd := by
        rw [hphase]
        rfl
      exact (h.goto (.idle r t)).closeFile (h.free_of_goto hbusy (h.releasing t fd hphase))
    · cases hs

theorem Inv.ownContexts (h : r.Inv) : r.OwnContexts where
  owned fd ho := by
    obtain ⟨-, ptr, o, he, ho', hc⟩ := h.owned fd ho
    obtain ⟨-, hnonblock, hkey⟩ := h.entered fd ptr he
    obtain ⟨hsocket, hvalues⟩ := h.values ptr o _ ho' hkey
    exact ⟨hnonblock, ptr, o, he, ho', hsocket, hc, hvalues⟩
  own fd fd' ptr he he' := by
    have hkey := (h.entered fd ptr he).2.2.symm.trans (h.entered fd' ptr he').2.2
    exact congrArg Prod.fst (Option.some.inj hkey)
  gone fd hclosed := (h.free_of_closed hclosed).entry
  absent t fd hphase := (h.opening t fd (.inr hphase)).1

theorem Inv.initial : Inv {} where
  size := by decide
  length := rfl
  nodup := .nil
  past _ h := by cases h
  entered fd ptr he := by
    have hnone : ({} : FdManager).entry fd = none := by
      rw [FdManager.entry, List.getElem?_replicate]
      split <;> rfl
    rw [hnone] at he
    cases he
  busy _ _ h := by cases h
  alone _ _ _ h := by cases h
  opening _ _ h := by rcases h with h | h <;> cases h
  closing _ _ _ h := by cases h
  releasing _ _ h := by cases h
  storing _ _ _ _ h := by cases h
  owned _ h := by cases h
  stored _ h := by cases h
  values _ _ _ h := by cases h

end DescriptorRun

/-- In every run of such calls in which a descriptor is closed by its owner, each descriptor has
    a context of its own, and none that an earlier one with its number has left. -/
theorem descriptor_ownContexts (r : DescriptorRun)
    (h : descriptorMachine.Reach DescriptorRun.Orderly r) : r.OwnContexts := by
  apply DescriptorRun.Inv.ownContexts
  apply Machine.Reach.invariant _ _ h
  · rintro _ rfl
    exact .initial
  · exact fun r a s hr ha hs => hr.step ha hs

/-- A thread stores a timeout for descriptor 5 while another one closes it; a third thread then gets
    the same number from an `accept` without the hook. -/
theorem descriptor_ownContexts_reused :
    ∃ r, descriptorMachine.Reach DescriptorRun.Orderly r ∧ r.OwnContexts ∧
      r.owned 5 = true ∧ r.generation 5 = 2 ∧ r.stored = [((5, 1), soRcvtimeo, 3000)] := by
  have hrun : ((descriptorMachine.run {} [.opens 1 false true 5, .check 1, .create 1,
      .setsockopt 2 5, .close 1 true 5, .closeCtx 1, .del 1, .closeFile 1, .opens 3 true false 5,
      .check 3, .create 3, .store 2 soRcvtimeo 3000]).any fun r =>
        r.owned 5 = true ∧ r.generation 5 = 2 ∧
          r.stored = [((5, 1), soRcvtimeo, 3000)]) = true := by
    decide
  obtain ⟨r, hr, hr'⟩ := (Option.any_eq_true _ _).mp hrun
  have hreach : descriptorMachine.Reach DescriptorRun.Orderly r := by
    refine Machine.Reach.of_run _ (.init rfl) ?_ hr
    have hcreate : ∀ (r : DescriptorRun) (t : Nat), r.phase t = .creating 5 →
        r.Orderly (.create t) := by
      intro r t hphase fd hfd
      cases hphase.symm.trans hfd
      decide
    refine .cons rfl rfl (.cons trivial rfl (.cons (hcreate _ _ rfl) rfl (.cons trivial rfl
      (.cons ⟨rfl, rfl⟩ rfl (.cons trivial rfl (.cons trivial rfl (.cons trivial rfl
        (.cons rfl rfl (.cons trivial rfl (.cons (hcreate _ _ rfl) rfl
          (.cons trivial rfl trivial)))))))))))
  exact ⟨r, hreach, descriptor_ownContexts r hreach, of_decide_eq_true hr'⟩

end CppServerFramework.Async

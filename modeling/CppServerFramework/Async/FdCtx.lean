import Mathlib.Tactic.Common

/-!
# The non-blocking flag of a descriptor

`FdCtx::init` makes every socket non-blocking for the kernel and keeps beside it what the user of
the socket has asked for.  The hooked `fcntl` and `ioctl` (`async/hook.cpp:385`) are to keep the
two apart.  Commands of `fcntl` other than `F_SETFL` and `F_GETFL`, and requests of `ioctl` other
than `FIONBIO`, are passed on as they are.
-/

namespace CppServerFramework.Async

/-- `O_NONBLOCK` -/
def oNonblock : BitVec 32 := .twoPow 32 11

/-- `flags & O_NONBLOCK`, as a condition. -/
def nonblocking (flags : BitVec 32) : Bool := flags &&& oNonblock != 0

/-- `fcntl_f(fd, F_SETFL, arg)`: the flags of `status` can be set, the others stay. -/
def setStatus (status flags arg : BitVec 32) : BitVec 32 :=
  (flags &&& ~~~status) ||| (arg &&& status)

/-- `ioctl_f(d, FIONBIO, &value)` -/
def setNonblock (flags value : BitVec 32) : BitVec 32 :=
  if value ≠ 0 then flags ||| oNonblock else flags &&& ~~~oNonblock

/-- The flags of `FdCtx` (`async/fdmanager.h:34`). -/
structure FdCtx where
  isInit : Bool := false
  isSocket : Bool := false
  sysNonblock : Bool := false
  userNonblock : Bool := false
  isClosed : Bool := false
  deriving DecidableEq

/-- `FdCtx::init` (`async/fdmanager.cpp:24`) on a new object, with the flags that it leaves in the
    kernel.  `fdStat` is the answer of `fstat`, if it succeeds: whether this is a socket. -/
def FdCtx.init (fdStat : Option Bool) (status flags : BitVec 32) : FdCtx × BitVec 32 :=
  let isSocket := fdStat.getD false
  let ctx : FdCtx := { isInit := fdStat.isSome, isSocket := isSocket, sysNonblock := isSocket }
  if isSocket && !nonblocking flags then
    (ctx, setStatus status flags (flags ||| oNonblock))
  else (ctx, flags)

/-- A descriptor: what `FdMgr::get(fd)` finds, and the flags in the kernel. -/
structure Descriptor where
  ctx : Option FdCtx
  flags : BitVec 32
  deriving DecidableEq

namespace Descriptor

variable (status : BitVec 32) (d : Descriptor)

/-- `ctx`, if it is that of an open socket. -/
def socket : Option FdCtx := d.ctx.filter fun ctx => !ctx.isClosed && ctx.isSocket

/-- `fcntl(fd, F_SETFL, arg)` (`async/hook.cpp:389`) -/
def setfl (arg : BitVec 32) : Descriptor :=
  match d.socket with
  | none => { d with flags := setStatus status d.flags arg }
  | some ctx =>
    let arg' := if ctx.sysNonblock then arg ||| oNonblock else arg &&& ~~~oNonblock
    { ctx := some { ctx with userNonblock := nonblocking arg }
      flags := setStatus status d.flags arg' }

/-- `fcntl(fd, F_GETFL)` (`async/hook.cpp:407`) -/
def getfl : BitVec 32 :=
  match d.socket with
  | none => d.flags
  | some ctx => if ctx.userNonblock then d.flags ||| oNonblock else d.flags &&& ~~~oNonblock

/-- `ioctl(d, FIONBIO, &value)` (`async/hook.cpp:475`) -/
def fionbio (value : BitVec 32) : Descriptor :=
  match d.socket with
  | none => { d with flags := setNonblock d.flags value }
  | some ctx =>
    { ctx := some { ctx with userNonblock := value != 0 }
      flags := setNonblock d.flags value }

end Descriptor

/-- The hooked calls. -/
inductive FlagCall where
  | setfl (arg : BitVec 32)
  | getfl
  | fionbio (value : BitVec 32)
  deriving DecidableEq

def Descriptor.call (status : BitVec 32) (d : Descriptor) : FlagCall → Descriptor
  | .setfl arg => d.setfl status arg
  | .getfl => d
  | .fionbio value => d.fionbio value

/-- A socket whose `FdCtx` has just been made. -/
def Descriptor.managed (status flags : BitVec 32) : Descriptor :=
  let (ctx, flags) := FdCtx.init (some true) status flags
  { ctx := some ctx, flags := flags }

/-! ## The view of the user -/

/-- What the user has set last. -/
structure UserFlags where
  nonblock : Bool
  others : BitVec 32

/-- The flags that can be set, without `O_NONBLOCK`. -/
def otherFlags (status flags : BitVec 32) : BitVec 32 := flags &&& (status &&& ~~~oNonblock)

def UserFlags.call (status : BitVec 32) (u : UserFlags) : FlagCall → UserFlags
  | .setfl arg => ⟨nonblocking arg, otherFlags status arg⟩
  | .getfl => u
  | .fionbio value => { u with nonblock := value != 0 }

/-- The kernel flag is set, and `F_GETFL` shows what the user has set last. -/
structure Virtual (status : BitVec 32) (u : UserFlags) (d : Descriptor) : Prop where
  kernel : nonblocking d.flags = true
  nonblock : nonblocking d.getfl = u.nonblock
  shown : otherFlags status d.getfl = u.others
  others : otherFlags status d.flags = u.others

/-- So it is after the calls up to any point, from a new `FdCtx` on. -/
def Virtualised (status flags : BitVec 32) (calls : List FlagCall) : Prop :=
  ∀ done rest : List FlagCall, calls = done ++ rest →
    Virtual status (done.foldl (UserFlags.call status) ⟨false, otherFlags status flags⟩)
      (done.foldl (Descriptor.call status) (.managed status flags))

/-! ## Flags -/

theorem nonblocking_eq (flags : BitVec 32) : nonblocking flags = flags.getLsbD 11 := by
  rw [nonblocking, oNonblock, BitVec.and_twoPow]
  cases flags.getLsbD 11 <;> decide

@[simp] theorem getLsbD_oNonblock (i : Nat) : oNonblock.getLsbD i = decide (i = 11) := by
  rw [oNonblock, BitVec.getLsbD_twoPow]
  by_cases hi : i = 11
  · subst hi
    decide
  · have hne : ¬11 = i := fun heq => hi heq.symm
    simp [hi, hne]

theorem otherFlags_congr {status flags flags' : BitVec 32}
    (h : ∀ i, i ≠ 11 → status.getLsbD i = true → flags.getLsbD i = flags'.getLsbD i) :
    otherFlags status flags = otherFlags status flags' := by
  refine BitVec.eq_of_getLsbD_eq fun i hi => ?_
  rw [otherFlags, otherFlags]
  simp only [BitVec.getLsbD_and, BitVec.getLsbD_not, getLsbD_oNonblock]
  by_cases heq : i = 11
  · simp [heq]
  · cases hstatus : status.getLsbD i
    · simp
    · rw [h i heq hstatus]

/-! ## Runs -/

/-- What the calls keep: an open socket whose `FdCtx` holds the user's flag, and the kernel's. -/
structure Kept (status : BitVec 32) (u : UserFlags) (d : Descriptor) : Prop where
  ctx : ∃ ctx, d.ctx = some ctx ∧ ctx.isClosed = false ∧ ctx.isSocket = true ∧
    ctx.sysNonblock = true ∧ ctx.userNonblock = u.nonblock
  kernel : nonblocking d.flags = true
  others : otherFlags status d.flags = u.others

variable {status flags : BitVec 32} {u : UserFlags} {d : Descriptor}

theorem Kept.socket (h : Kept status u d) :
    ∃ ctx, d.socket = some ctx ∧ ctx.isClosed = false ∧ ctx.isSocket = true ∧
      ctx.sysNonblock = true ∧ ctx.userNonblock = u.nonblock := by
  obtain ⟨ctx, hctx, hclosed, hsocket, hrest⟩ := h.ctx
  exact ⟨ctx, by simp [Descriptor.socket, hctx, hclosed, hsocket], hclosed, hsocket, hrest⟩

theorem Kept.virtual (h : Kept status u d) : Virtual status u d := by
  obtain ⟨ctx, hsocket, -, -, -, huser⟩ := h.socket
  have hgetfl : d.getfl =
      if u.nonblock then d.flags ||| oNonblock else d.flags &&& ~~~oNonblock := by
    rw [Descriptor.getfl, hsocket, ← huser]
  have hshown : otherFlags status d.getfl = otherFlags status d.flags := by
    refine otherFlags_congr fun i hi _ => ?_
    rw [hgetfl]
    split <;> simp [hi]
    intro hbit
    exact BitVec.lt_of_getLsbD hbit
  refine ⟨h.kernel, ?_, hshown.trans h.others, h.others⟩
  rw [hgetfl, nonblocking_eq]
  cases u.nonblock <;> simp

/-- `F_SETFL` gives the kernel the flags of the user and `O_NONBLOCK`. -/
theorem Kept.setfl (h : Kept status u d) (hstatus : nonblocking status = true)
    (arg : BitVec 32) : Kept status (u.call status (.setfl arg)) (d.setfl status arg) := by
  obtain ⟨ctx, hsocket, hclosed, hissocket, hsys, -⟩ := h.socket
  rw [nonblocking_eq] at hstatus
  rw [Descriptor.setfl, hsocket]
  simp only [hsys, if_true]
  refine ⟨⟨_, rfl, hclosed, hissocket, rfl, rfl⟩, ?_, ?_⟩
  · rw [nonblocking_eq]
    simp [setStatus, hstatus]
  · refine otherFlags_congr fun i hi hbit => ?_
    simp [setStatus, hbit, hi]

/-- `FIONBIO` with a value other than 0 leaves the kernel's flags. -/
theorem Kept.fionbio (h : Kept status u d) {value : BitVec 32} (hvalue : value ≠ 0) :
    Kept status (u.call status (.fionbio value)) (d.fionbio value) := by
  obtain ⟨ctx, hsocket, hclosed, hissocket, hsys, -⟩ := h.socket
  rw [Descriptor.fionbio, hsocket]
  simp only [setNonblock, if_pos hvalue]
  refine ⟨⟨_, rfl, hclosed, hissocket, hsys, rfl⟩, ?_, ?_⟩
  · rw [nonblocking_eq]
    simp
  · refine Eq.trans (otherFlags_congr fun i hi _ => ?_) h.others
    simp [hi]

theorem Kept.call (h : Kept status u d) (hstatus : nonblocking status = true) {c : FlagCall}
    (hc : c ≠ .fionbio 0) : Kept status (u.call status c) (d.call status c) := by
  cases c with
  | setfl arg => exact h.setfl hstatus arg
  | getfl => exact h
  | fionbio value => exact h.fionbio fun heq => hc (heq ▸ rfl)

theorem Kept.calls (h : Kept status u d) (hstatus : nonblocking status = true)
    {calls : List FlagCall} (hcalls : ∀ c ∈ calls, c ≠ .fionbio 0) :
    Kept status (calls.foldl (UserFlags.call status) u)
      (calls.foldl (Descriptor.call status) d) := by
  induction calls generalizing u d with
  | nil => exact h
  | cons c calls ih =>
    exact ih (h.call hstatus (hcalls c (by simp))) fun b hb => hcalls b (by simp [hb])

theorem kept_managed (hstatus : nonblocking status = true) :
    Kept status ⟨false, otherFlags status flags⟩ (.managed status flags) := by
  have hstatus' : status.getLsbD 11 = true := nonblocking_eq status ▸ hstatus
  rw [Descriptor.managed, FdCtx.init]
  cases hflags : nonblocking flags with
  | true =>
    simp only [Option.getD_some, Bool.not_true, Bool.and_false, Bool.false_eq_true, if_false]
    exact ⟨⟨_, rfl, rfl, rfl, rfl, rfl⟩, hflags, rfl⟩
  | false =>
    simp only [Option.getD_some, Bool.not_false, Bool.and_true, if_true]
    refine ⟨⟨_, rfl, rfl, rfl, rfl, rfl⟩, ?_, ?_⟩
    · rw [nonblocking_eq]
      simp [setStatus, hstatus']
    · refine otherFlags_congr fun i hi hbit => ?_
      simp [setStatus, hbit, hi]

/-- The kernel flag is cleared. -/
theorem fionbio_zero (d : Descriptor) : nonblocking (d.fionbio 0).flags = false := by
  have hflags : (d.fionbio 0).flags = d.flags &&& ~~~oNonblock := by
    rw [Descriptor.fionbio]
    split <;> simp [setNonblock]
  rw [hflags, nonblocking_eq]
  simp

/-- The kernel flag stays set and `F_GETFL` shows the user's flags if and only if no call is
    `FIONBIO` with the value 0. -/
theorem virtualised_iff (hstatus : nonblocking status = true) (flags : BitVec 32)
    (calls : List FlagCall) :
    Virtualised status flags calls ↔ ∀ c ∈ calls, c ≠ .fionbio 0 := by
  constructor
  · rintro h c hmem rfl
    obtain ⟨done, rest, rfl⟩ := List.append_of_mem hmem
    have hkernel := (h (done ++ [.fionbio 0]) rest (by simp)).kernel
    rw [List.foldl_append] at hkernel
    exact Bool.false_ne_true ((fionbio_zero _).symm.trans hkernel)
  · rintro h done rest rfl
    refine (Kept.calls (kept_managed hstatus) hstatus fun c hc => ?_).virtual
    exact h c (List.mem_append_left rest hc)

/-- The user asks for `O_NONBLOCK` with one call and takes it back with the other. -/
theorem virtualised_fcntl : Virtualised oNonblock 0 [.fionbio 1, .setfl 0, .getfl] :=
  (virtualised_iff (by decide) 0 _).mpr (by decide)

/-- `ioctl` passes the user's 0 on to the kernel. -/
theorem kernel_blocks :
    ¬∀ status flags calls, nonblocking status = true → Virtualised status flags calls := by
  intro h
  have hkernel := (h oNonblock 0 [.fionbio 0] (by decide) [.fionbio 0] [] rfl).kernel
  exact Bool.false_ne_true hkernel

end CppServerFramework.Async

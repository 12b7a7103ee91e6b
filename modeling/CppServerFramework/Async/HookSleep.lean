import CppServerFramework.Async.Timer
import CppServerFramework.Misc.CInt

/-!
# The hooked sleeps

`sleep`, `usleep` and `nanosleep` (`async/hook.cpp:264-298`) arm a timer that schedules the fiber
again.  Each makes milliseconds of its argument in the types that it has at hand: an
`unsigned int` that wraps, a division that rounds down, and a `long` that is cut to an `int`.
-/

namespace CppServerFramework.Async

open CInt

/-- A `struct timespec` that is a duration, on a platform where `time_t` is a `long`. -/
structure Timespec where
  tv_sec : Int
  tv_nsec : Int
  sec_range : 0 ≤ tv_sec ∧ tv_sec < 2 ^ 63
  nsec_range : 0 ≤ tv_nsec ∧ tv_nsec < 10 ^ 9

/-- The result of an operation on `long`; an overflow is undefined. -/
def checkedLong (n : Int) : Option Int := if -2 ^ 63 ≤ n ∧ n < 2 ^ 63 then some n else none

inductive SleepCall where
  | sleep (seconds : UInt32)
  | usleep (usec : UInt32)
  | nanosleep (req : Timespec)

/-- What a call does before it yields: it is the original function, or it has added a timer. -/
inductive HookOutcome where
  | original
  | armed (m : TimerManager) (atFront : Bool)
  | undefined

namespace Hook

variable (t_hook_enable : Bool) (m : TimerManager) (fiber : Nat) (now : UInt64) (addr : Nat)

/-- The timer of `fiber`, as `iom->addTimer(ms, schedule(fiber))`. -/
def arm (ms : UInt64) : HookOutcome :=
  let (m, atFront) := m.addTimer ms (some (.fn fiber)) false now addr
  .armed m atFront

/-- `sleep` (`hook.cpp:264-274`). -/
def sleep (seconds : UInt32) : HookOutcome :=
  if !t_hook_enable then .original else arm m fiber now addr (seconds * 1000).toUInt64

/-- `usleep` (`hook.cpp:276-286`). -/
def usleep (usec : UInt32) : HookOutcome :=
  if !t_hook_enable then .original else arm m fiber now addr (usec / 1000).toUInt64

/-- `timeout_ms` of `nanosleep` (`hook.cpp:292`). -/
def nanosleepTimeout (req : Timespec) : Option Int := do
  let ms ← checkedLong (req.tv_sec * 1000)
  let ms ← checkedLong (ms + (req.tv_nsec.tdiv 1000).tdiv 1000)
  return intOfLong ms

/-- `nanosleep` (`hook.cpp:288-298`). -/
def nanosleep (req : Timespec) : HookOutcome :=
  if !t_hook_enable then .original
  else match nanosleepTimeout req with
  | none => .undefined
  | some timeout_ms => arm m fiber now addr (UInt64.ofNat (sizeOfInt timeout_ms))

def call : SleepCall → HookOutcome
  | .sleep seconds => sleep t_hook_enable m fiber now addr seconds
  | .usleep usec => usleep t_hook_enable m fiber now addr usec
  | .nanosleep req => nanosleep t_hook_enable m fiber now addr req

end Hook

namespace SleepCall

/-- The duration asked for, rounded up to a millisecond. -/
def requested : SleepCall → Nat
  | .sleep seconds => seconds.toNat * 1000
  | .usleep usec => (usec.toNat + 999) / 1000
  | .nanosleep req => req.tv_sec.toNat * 1000 + (req.tv_nsec.toNat + 999999) / 1000000

/-- With the hook enabled the call arms a timer that is not due before the time asked for. -/
def NotEarly (c : SleepCall) (m : TimerManager) (fiber : Nat) (now : UInt64) (addr : Nat) : Prop :=
  ∃ m' atFront, Hook.call true m fiber now addr c = .armed m' atFront ∧
    now.toNat + c.requested ≤ (m'.timers m.count).next.toNat

/-- The milliseconds are whole and fit their type, and the due time does not wrap; or they are so
    many that the `int` is negative, and the clock has not run for as long as it says. -/
def Fits (now : UInt64) : SleepCall → Prop
  | .sleep seconds =>
    seconds.toNat * 1000 < 2 ^ 32 ∧ now.toNat + seconds.toNat * 1000 < 2 ^ 64
  | .usleep usec => usec.toNat % 1000 = 0 ∧ now.toNat + usec.toNat / 1000 < 2 ^ 64
  | .nanosleep req =>
    let ms := req.tv_sec.toNat * 1000 + req.tv_nsec.toNat / 1000000
    req.tv_nsec.toNat % 1000000 = 0 ∧ ms < 2 ^ 31 ∧ now.toNat + ms < 2 ^ 64 ∨
      ms < 2 ^ 63 ∧ 2 ^ 31 ≤ ms % 2 ^ 32 ∧ now.toNat + ms % 2 ^ 32 < 2 ^ 32

variable {c : SleepCall} {m : TimerManager} {fiber : Nat} {now ms : UInt64} {addr : Nat}

theorem next_addTimer {cb : Option TimerCallback} :
    ((m.addTimer ms cb false now addr).1.timers m.count).next = now + ms := by
  simp [TimerManager.addTimer, TimerManager.insertTimer, TimerManager.insert,
    TimerManager.setTimer]

/-- A call that arms a timer of `ms` milliseconds. -/
theorem notEarly_of_arm (h : Hook.call true m fiber now addr c = Hook.arm m fiber now addr ms) :
    c.NotEarly m fiber now addr ↔
      now.toNat + c.requested ≤ (now.toNat + ms.toNat) % 2 ^ 64 := by
  rw [NotEarly, h, ← UInt64.toNat_add, ← next_addTimer]
  constructor
  · rintro ⟨m', atFront, heq, hle⟩
    injection heq with hm
    rwa [← hm] at hle
  · exact fun hle => ⟨_, _, rfl, hle⟩

theorem notEarly_sleep_iff (seconds : UInt32) :
    (SleepCall.sleep seconds).NotEarly m fiber now addr ↔ (SleepCall.sleep seconds).Fits now := by
  have harm : Hook.call true m fiber now addr (.sleep seconds) =
      Hook.arm m fiber now addr (seconds * 1000).toUInt64 := rfl
  rw [notEarly_of_arm harm, requested, Fits]
  have hms : (seconds * 1000).toUInt64.toNat = seconds.toNat * 1000 % 2 ^ 32 := by
    rw [UInt32.toNat_toUInt64, UInt32.toNat_mul]
    rfl
  have hnow := now.toNat_lt
  rw [hms]
  rcases Nat.lt_or_ge (seconds.toNat * 1000) (2 ^ 32) with hlt | hge
  · rw [Nat.mod_eq_of_lt hlt]
    omega
  · have hwrap := Nat.mod_lt (seconds.toNat * 1000) (show 0 < 2 ^ 32 by decide)
    have hle := Nat.mod_le (now.toNat + seconds.toNat * 1000 % 2 ^ 32) (2 ^ 64)
    omega

theorem notEarly_usleep_iff (usec : UInt32) :
    (SleepCall.usleep usec).NotEarly m fiber now addr ↔ (SleepCall.usleep usec).Fits now := by
  have harm : Hook.call true m fiber now addr (.usleep usec) =
      Hook.arm m fiber now addr (usec / 1000).toUInt64 := rfl
  rw [notEarly_of_arm harm, requested, Fits]
  have hms : (usec / 1000).toUInt64.toNat = usec.toNat / 1000 := by
    rw [UInt32.toNat_toUInt64, UInt32.toNat_div]
    rfl
  have hnow := now.toNat_lt
  have husec := usec.toNat_lt
  rw [hms]
  omega

theorem checkedLong_natCast (n : Nat) :
    checkedLong n = if n < 2 ^ 63 then some (n : Int) else none := by
  rw [checkedLong]
  by_cases h : n < 2 ^ 63
  · rw [if_pos h, if_pos (by omega)]
  · rw [if_neg h, if_neg (by omega)]

/-- The milliseconds of a `timespec`, or an overflow. -/
theorem nanosleepTimeout_eq (req : Timespec) :
    Hook.nanosleepTimeout req =
      if req.tv_sec.toNat * 1000 + req.tv_nsec.toNat / 1000000 < 2 ^ 63 then
        some (intOfLong (req.tv_sec.toNat * 1000 + req.tv_nsec.toNat / 1000000 : Nat))
      else none := by
  obtain ⟨sec, nsec, hsec, hnsec⟩ := req
  obtain ⟨n, rfl⟩ := Int.eq_ofNat_of_zero_le hsec.1
  obtain ⟨k, rfl⟩ := Int.eq_ofNat_of_zero_le hnsec.1
  have hdiv : ((k : Int).tdiv 1000).tdiv 1000 = (k / 1000000 : Nat) := by
    rw [← Nat.div_div_eq_div_mul k 1000 1000, Int.ofNat_tdiv, Int.ofNat_tdiv]
    norm_cast
  have hmul : (n : Int) * 1000 = (n * 1000 : Nat) := by norm_cast
  rw [Hook.nanosleepTimeout, hdiv, hmul, checkedLong_natCast]
  simp only [Int.toNat_natCast, Option.bind_eq_bind]
  generalize k / 1000000 = ms
  by_cases hfirst : n * 1000 < 2 ^ 63
  · rw [if_pos hfirst, Option.bind_some, ← Int.natCast_add, checkedLong_natCast]
    by_cases hsum : n * 1000 + ms < 2 ^ 63
    · rw [if_pos hsum, if_pos hsum, Option.bind_some, Option.pure_def]
    · rw [if_neg hsum, if_neg hsum, Option.bind_none]
  · have hsum : ¬n * 1000 + ms < 2 ^ 63 := fun h =>
      hfirst (Nat.lt_of_le_of_lt (Nat.le_add_right _ _) h)
    rw [if_neg hfirst, if_neg hsum, Option.bind_none]

/-- An `int` added to the clock. -/
theorem toNat_sizeOfInt_intOfLong (n : Nat) :
    (UInt64.ofNat (sizeOfInt (intOfLong n))).toNat =
      if n % 2 ^ 32 < 2 ^ 31 then n % 2 ^ 32 else 2 ^ 64 - 2 ^ 32 + n % 2 ^ 32 := by
  have hlong : intOfLong n =
      if n % 2 ^ 32 < 2 ^ 31 then ((n % 2 ^ 32 : Nat) : Int) else (n % 2 ^ 32 : Nat) - 2 ^ 32 := by
    rw [intOfLong, Int.bmod_def]
    split <;> split <;> omega
  rw [hlong, UInt64.toNat_ofNat', sizeOfInt, sizeMod]
  split <;> omega

theorem notEarly_nanosleep_iff (req : Timespec) :
    (SleepCall.nanosleep req).NotEarly m fiber now addr ↔ (SleepCall.nanosleep req).Fits now := by
  obtain ⟨up, hceil, hup, hone⟩ : ∃ up, (req.tv_nsec.toNat + 999999) / 1000000 =
      req.tv_nsec.toNat / 1000000 + up ∧ (up = 0 ↔ req.tv_nsec.toNat % 1000000 = 0) ∧ up ≤ 1 :=
    ⟨(req.tv_nsec.toNat + 999999) / 1000000 - req.tv_nsec.toNat / 1000000, by omega, by omega,
      by omega⟩
  have hnow := now.toNat_lt
  have htimeout := nanosleepTimeout_eq req
  simp only [Fits, ← hup]
  generalize hms : req.tv_sec.toNat * 1000 + req.tv_nsec.toNat / 1000000 = ms at htimeout
  by_cases hlong : ms < 2 ^ 63
  · rw [if_pos hlong] at htimeout
    rw [notEarly_of_arm (by simp only [Hook.call, Hook.nanosleep, htimeout]; rfl), requested, hceil,
      ← Nat.add_assoc (req.tv_sec.toNat * 1000), hms, toNat_sizeOfInt_intOfLong]
    by_cases hsign : ms % 2 ^ 32 < 2 ^ 31
    · rw [if_pos hsign]
      by_cases hint : ms < 2 ^ 31
      · rw [Nat.mod_eq_of_lt (show ms < 2 ^ 32 by omega)]
        omega
      · -- the `int` is smaller, and the sum is at most what it says
        have hle := Nat.mod_le (now.toNat + ms % 2 ^ 32) (2 ^ 64)
        omega
    · have hint : ¬ms < 2 ^ 31 := by omega
      have hlow := Nat.mod_lt ms (show 0 < 2 ^ 32 by decide)
      rw [if_neg hsign]
      generalize ms % 2 ^ 32 = low at hsign hlow
      omega
  · rw [if_neg hlong] at htimeout
    refine iff_of_false ?_ (by omega)
    rintro ⟨m', atFront, heq, -⟩
    simp [Hook.call, Hook.nanosleep, htimeout] at heq

end SleepCall

/-- A hooked sleep does not wake early exactly where its milliseconds fit, whatever timers there
    are. -/
theorem sleep_notEarly_iff (c : SleepCall) (m : TimerManager) (fiber : Nat) (now : UInt64)
    (addr : Nat) : c.NotEarly m fiber now addr ↔ c.Fits now := by
  cases c with
  | sleep seconds => exact SleepCall.notEarly_sleep_iff seconds
  | usleep usec => exact SleepCall.notEarly_usleep_iff usec
  | nanosleep req => exact SleepCall.notEarly_nanosleep_iff req

/-- Half a millisecond, 4294968 seconds, and 25 days in a `timespec`. -/
theorem sleep_early :
    let m : TimerManager := { timers := fun _ => { addr := 0 }, previous := 0 }
    ¬SleepCall.NotEarly (.usleep 500) m 1 1700000000000 20 ∧
      ¬SleepCall.NotEarly (.sleep 4294968) m 1 1700000000000 20 ∧
      ¬SleepCall.NotEarly (.nanosleep ⟨2160000, 0, by decide, by decide⟩) m 1 1700000000000 20 := by
  refine ⟨?_, ?_, ?_⟩ <;>
  · rintro ⟨m', atFront, heq, hle⟩
    cases heq
    revert hle
    decide

end CppServerFramework.Async

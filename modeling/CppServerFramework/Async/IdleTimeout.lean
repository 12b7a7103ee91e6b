import CppServerFramework.Async.Timer
import CppServerFramework.Misc.CInt

/-!
# The timeout of the idle fiber

`IOManager::idle` sleeps in `epoll_wait` for as long as `getNextTimer` allows, and for
`MAX_TIMEOUT` at most.  The distance to the next timer is a `uint64_t`, and it is made an `int`
for the comparison and for the call.
-/

namespace CppServerFramework.Async

open CInt

namespace IOManager

def MAX_TIMEOUT : Nat := 5000

/-- `next_timeout` in front of a call of `epoll_wait` (`iomanager.cpp:320-328`). -/
def clampTimeout (next_timeout : UInt64) : UInt64 :=
  if next_timeout ≠ ~~~0 then
    if MAX_TIMEOUT < intOfSize next_timeout.toNat then UInt64.ofNat MAX_TIMEOUT else next_timeout
  else UInt64.ofNat MAX_TIMEOUT

/-- The timeouts that `epoll_wait` is called with, where the first `interrupts` calls return with
    `EINTR` (`iomanager.cpp:317-335`). -/
def epollTimeouts (next_timeout : UInt64) : Nat → List Int
  | 0 => [intOfSize (clampTimeout next_timeout).toNat]
  | interrupts + 1 =>
    intOfSize (clampTimeout next_timeout).toNat ::
      epollTimeouts (clampTimeout next_timeout) interrupts

/-- `stopping(timer)` (`iomanager.cpp:298-301`); `others` says that no event is pending and that
    `Scheduler::stopping` holds. -/
def stopping (timer : UInt64) (others : Bool) : Bool := timer = ~~~0 && others

/-- One turn of the loop of `idle` up to the timers' functions: the timeouts of its calls of
    `epoll_wait`. -/
def idleTimeouts (m : TimerManager) (now : UInt64) (others : Bool) (interrupts : Nat) : List Int :=
  let next_timeout := (m.getNextTimer now).2
  if stopping next_timeout others then [] else epollTimeouts next_timeout interrupts

/-- Every timeout is one of 0 to `MAX_TIMEOUT` milliseconds, and not behind the next timer. -/
def TimelyIdle (m : TimerManager) (now : UInt64) : Prop :=
  ∀ others interrupts, ∀ timeout ∈ idleTimeouts m now others interrupts,
    0 ≤ timeout ∧ timeout ≤ MAX_TIMEOUT ∧ timeout ≤ (m.getNextTimer now).2.toNat

/-- The distance to the next timer is one whose low 32 bits are not negative as an `int`, or it is
    the one that stands for no timer. -/
def DistanceFits (m : TimerManager) (now : UInt64) : Prop :=
  ∀ i ∈ m.set.head?, now < (m.timers i).next →
    (m.timers i).next - now = ~~~0 ∨ ((m.timers i).next - now).toNat % 2 ^ 32 < 2 ^ 31

variable {t : UInt64} {m : TimerManager} {now : UInt64}

theorem toNat_maxTimeout : (UInt64.ofNat MAX_TIMEOUT).toNat = MAX_TIMEOUT := by decide

theorem intOfSize_maxTimeout : intOfSize MAX_TIMEOUT = MAX_TIMEOUT := by decide

/-- A second turn does not change the timeout. -/
theorem clampTimeout_idem (t : UInt64) : clampTimeout (clampTimeout t) = clampTimeout t := by
  have hmax : clampTimeout (UInt64.ofNat MAX_TIMEOUT) = UInt64.ofNat MAX_TIMEOUT := by decide
  by_cases ht : t = ~~~0
  · subst ht
    decide
  · by_cases hlt : MAX_TIMEOUT < intOfSize t.toNat
    · have hclamp : clampTimeout t = UInt64.ofNat MAX_TIMEOUT := by
        rw [clampTimeout, if_pos ht, if_pos hlt]
      rw [hclamp, hmax]
    · have hclamp : clampTimeout t = t := by rw [clampTimeout, if_pos ht, if_neg hlt]
      rw [hclamp, hclamp]

theorem mem_epollTimeouts {timeout : Int} {interrupts : Nat} :
    timeout ∈ epollTimeouts t interrupts ↔ timeout = intOfSize (clampTimeout t).toNat := by
  induction interrupts generalizing t with
  | zero => exact List.mem_singleton
  | succ interrupts ih => rw [epollTimeouts, List.mem_cons, ih, clampTimeout_idem, or_self]

/-- The `int` is the `uint64_t` or one that is smaller by a multiple of `2 ^ 32`. -/
theorem intOfSize_le (n : Nat) : intOfSize n ≤ n := by
  unfold intOfSize
  split <;> omega

theorem intOfSize_nonneg_iff {n : Nat} : 0 ≤ intOfSize n ↔ n % 2 ^ 32 < 2 ^ 31 := by
  unfold intOfSize
  split <;> omega

/-- The timeout of a call, for every result of `getNextTimer`. -/
theorem clampTimeout_timely_iff (t : UInt64) :
    (0 ≤ intOfSize (clampTimeout t).toNat ∧ intOfSize (clampTimeout t).toNat ≤ MAX_TIMEOUT ∧
        intOfSize (clampTimeout t).toNat ≤ t.toNat) ↔
      t = ~~~0 ∨ t.toNat % 2 ^ 32 < 2 ^ 31 := by
  by_cases ht : t = ~~~0
  · subst ht
    decide
  · rw [clampTimeout, if_pos ht, or_iff_right ht, ← intOfSize_nonneg_iff]
    have hle := intOfSize_le t.toNat
    split
    · rename_i hlt
      rw [toNat_maxTimeout, intOfSize_maxTimeout]
      omega
    · rename_i hle'
      omega

/-- The distance that `getNextTimer` answers fits, unless it answers that there is no timer. -/
theorem distanceFits_iff : DistanceFits m now ↔
    (m.getNextTimer now).2 = ~~~0 ∨ (m.getNextTimer now).2.toNat % 2 ^ 32 < 2 ^ 31 := by
  rw [DistanceFits]
  cases hset : m.set with
  | nil => simp [TimerManager.getNextTimer, hset]
  | cons i l =>
    simp only [TimerManager.getNextTimer, hset, List.head?_cons, Option.mem_def,
      Option.some.injEq, forall_eq']
    split
    · rename_i hge
      refine iff_of_true (fun hlt => ?_) (Or.inr (by simp))
      exact absurd hge (UInt64.not_le.mpr hlt)
    · rename_i hlt
      exact imp_iff_right (UInt64.not_le.mp hlt)

/-- The timeouts are timely exactly when the distance to the next timer fits. -/
theorem timelyIdle_iff (m : TimerManager) (now : UInt64) :
    TimelyIdle m now ↔ DistanceFits m now := by
  rw [distanceFits_iff, ← clampTimeout_timely_iff]
  constructor
  · intro h
    exact h false 0 _ (by simp [idleTimeouts, stopping, mem_epollTimeouts])
  · intro h others interrupts timeout hmem
    rw [idleTimeouts] at hmem
    split at hmem
    · cases hmem
    · rw [mem_epollTimeouts.mp hmem]
      exact h

/-- One timer, added with 3000000000 milliseconds. -/
def distantTimer : TimerManager :=
  (TimerManager.addTimer { timers := fun _ => { addr := 0 }, previous := 5000000 } 3000000000
    (some (.fn 1)) false 5000000 20).1

theorem distantTimer_sleeps :
    idleTimeouts distantTimer 5000000 false 1 = [-1294967296, -1294967296] ∧
      ¬TimelyIdle distantTimer 5000000 := by
  have htimeouts : idleTimeouts distantTimer 5000000 false 1 = [-1294967296, -1294967296] := by
    decide
  refine ⟨htimeouts, fun h => ?_⟩
  have hneg := (h false 1 (-1294967296) (by rw [htimeouts]; simp)).1
  omega

end IOManager

end CppServerFramework.Async

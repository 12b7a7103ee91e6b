import CppServerFramework.HTTP.ConnectionPoolProps
import Mathlib.Algebra.Order.BigOperators.Group.Finset

/-!
# The size of the connection pool

`HttpConnectionPool` stores `m_maxSize` and keeps `m_total`, but compares neither with anything: a
call of `getConnection` that finds no connection opens one.  The pool stays within its size where
its callers see to it.
-/

namespace CppServerFramework.HTTP

/-- A pool with the `m_maxSize` that its constructor stores (`http_connection.cpp:250`); nothing
    else mentions it. -/
structure SizedPool where
  maxSize : UInt32
  system : PoolSystem

/-- The connections of a call that `m_total` counts or, after `++m_total`, will count. -/
def PoolCall.opened : PoolCall → Nat
  | .counting _ => 1
  | c => c.counted

/-- The connections in the pool, with the holders and, as `g` counts them, in the calls. -/
def PoolSystem.amount (g : PoolCall → Nat) (s : PoolSystem) : Nat :=
  s.pool.conns.length + s.leases.length + ∑ v ∈ Finset.range s.threads, g (s.calls v)

/-- The connections that have been opened and not taken off `m_total`. -/
def PoolSystem.opened (s : PoolSystem) : Nat := s.amount PoolCall.opened

namespace SizedPool

/-- A new pool that is used by `threads` threads. -/
def start (maxSize maxAliveTime maxRequest : UInt32) (threads : Nat) : SizedPool where
  maxSize := maxSize
  system := .start maxAliveTime maxRequest threads

def step (p : SizedPool) (a : PoolAction) : Option SizedPool :=
  (p.system.step a).map fun s => { p with system := s }

/-- `m_total`, and the number of connections that it counts, are not above `m_maxSize`. -/
structure WithinSize (p : SizedPool) : Prop where
  counted : p.system.counted ≤ p.maxSize.toNat
  total : p.system.pool.total.toInt ≤ p.maxSize.toNat

/-- The condition on a step: a connection is opened only where fewer than `m_maxSize` are. -/
def OpensWithin (p : SizedPool) : PoolAction → Prop
  | .connect _ _ _ => p.system.opened < p.maxSize.toNat
  | _ => True

end SizedPool

def sizedPoolMachine : Machine SizedPool PoolAction where
  init p := ∃ maxSize maxAliveTime maxRequest threads,
    p = .start maxSize maxAliveTime maxRequest threads
  step := SizedPool.step

namespace PoolSystem

variable {s s' : PoolSystem} {t : Nat} {c c' : PoolCall}

/-! ## What the steps open -/

theorem PoolCall.counted_le_opened (c : PoolCall) : c.counted ≤ c.opened := by
  cases c <;> simp [PoolCall.opened, PoolCall.counted]

theorem counted_le_opened (s : PoolSystem) : s.counted ≤ s.opened :=
  Nat.add_le_add_left (Finset.sum_le_sum fun _ _ => PoolCall.counted_le_opened _) _

/-- A step of thread `t` changes what the pool, the holders and the thread have. -/
theorem amount_moves (g : PoolCall → Nat) (ht : t < s.threads) (hcall : s.calls t = c)
    (hcalls : s'.calls = Function.update s.calls t c') (hthreads : s'.threads = s.threads) :
    s'.amount g + (s.pool.conns.length + s.leases.length + g c) =
      s.amount g + (s'.pool.conns.length + s'.leases.length + g c') := by
  have hcall' : s'.calls t = c' := by
    rw [hcalls, Function.update_self]
  have ht' : t < s'.threads := hthreads ▸ ht
  rw [amount, amount, sum_calls g ht hcall, sum_calls g ht' hcall', hthreads, sum_others g hcalls]
  omega

theorem amount_eq (g : PoolCall → Nat) (n : Nat) (ht : t < s.threads) (hcall : s.calls t = c)
    (hcalls : s'.calls = Function.update s.calls t c') (hthreads : s'.threads = s.threads)
    (h : s'.pool.conns.length + s'.leases.length + g c' =
      s.pool.conns.length + s.leases.length + g c + n) : s'.amount g = s.amount g + n := by
  have hmoves := amount_moves g ht hcall hcalls hthreads
  omega

/-- The step opens no connection, where those it touches are no more than before. -/
theorem opened_le (ht : t < s.threads) (hcall : s.calls t = c)
    (hcalls : s'.calls = Function.update s.calls t c') (hthreads : s'.threads = s.threads)
    (h : s'.pool.conns.length + s'.leases.length + c'.opened ≤
      s.pool.conns.length + s.leases.length + c.opened) : s'.opened ≤ s.opened := by
  have hmoves := amount_moves PoolCall.opened ht hcall hcalls hthreads
  rw [opened, opened]
  omega

theorem opened_getConnection (ht : t < s.threads) {now : UInt64}
    (hs : s.getConnection t now = some s') : s'.opened ≤ s.opened := by
  rw [PoolSystem.getConnection] at hs
  split at hs <;> try cases hs
  next hcall =>
  split at hs <;> cases hs
  next invalid ptr rest hrun =>
    have happend := congrArg List.length (HttpConnectionPool.popConns_append hrun)
    refine opened_le ht hcall rfl rfl ?_
    simp only [List.length_append] at happend
    simp only [setCall, PoolCall.opened, PoolCall.counted]
    omega
  next => exact Nat.le_refl _

theorem connect_step {ptr : Nat} {now : UInt64} (hs : s.step (.connect t ptr now) = some s') :
    s'.opened = s.opened + 1 := by
  have ht : t < s.threads := step_lt hs rfl
  unfold PoolSystem.step at hs
  rw [if_neg (by simpa [PoolAction.thread] using ht)] at hs
  simp only [PoolSystem.connect] at hs
  split at hs <;> try cases hs
  next hcall =>
  split at hs <;> cases hs
  exact amount_eq PoolCall.opened 1 ht hcall rfl rfl rfl

/-- Only `connect` opens a connection. -/
theorem opened_step {a : PoolAction} (hs : s.step a = some s')
    (hconnect : ∀ t ptr now, a ≠ .connect t ptr now) : s'.opened ≤ s.opened := by
  have ht : ∀ t, a.thread = some t → t < s.threads := fun _ => step_lt hs
  unfold PoolSystem.step at hs
  split at hs
  · cases hs
  cases a with
  | connect t ptr now => exact absurd rfl (hconnect t ptr now)
  | getConnection t now => exact opened_getConnection (ht t rfl) hs
  | disconnect ptr =>
    obtain ⟨c, -, rfl⟩ := Option.map_eq_some_iff.mp hs
    exact Nat.le_refl _
  | deleteInvalid t | addRequest t | destroy t =>
    simp only [deleteInvalid, addRequest, destroy, deref] at hs
    split at hs <;> cases hs
    next hcall =>
    split
    · exact opened_le (ht t rfl) hcall rfl rfl (Nat.le_refl _)
    · exact Nat.le_refl _
  | decideRelease t now =>
    simp only [decideRelease, deref] at hs
    split at hs <;> cases hs
    next ptr hcall =>
    split
    · next c hc =>
      refine opened_le (ht t rfl) hcall rfl rfl ?_
      cases s.pool.destroys c now <;> exact Nat.le_refl _
    · exact Nat.le_refl _
  | subtract t =>
    simp only [subtract] at hs
    split at hs <;> cases hs
    next size ptr hcall =>
    refine opened_le (ht t rfl) hcall rfl rfl ?_
    cases ptr <;> simp [setCall, PoolCall.opened, PoolCall.counted]
  | fail t | count t | uncount t | handOut t | push t =>
    simp only [fail, count, uncount, handOut, push] at hs
    split at hs <;> cases hs
    next hcall =>
    refine opened_le (ht t rfl) hcall rfl rfl ?_
    simp only [setCall, PoolCall.opened, PoolCall.counted, List.length_append, List.length_cons,
      List.length_nil]
    omega
  | releasePtr t ptr =>
    simp only [releasePtr] at hs
    split at hs <;> try cases hs
    next hcall =>
    split at hs <;> cases hs
    next hmem =>
    refine opened_le (ht t rfl) hcall rfl rfl ?_
    have hlength := List.length_erase_of_mem hmem
    have hpos := List.length_pos_of_mem hmem
    simp only [setCall, PoolCall.opened, PoolCall.counted]
    omega

/-! ## `m_total` follows -/

/-- Where a connection is opened that is not counted yet, a thread is about to count it. -/
theorem exists_counting (h : s.counted < s.opened) :
    ∃ t < s.threads, ∃ ptr, s.calls t = .counting ptr := by
  obtain ⟨t, ht, hlt⟩ := Finset.exists_lt_of_sum_lt (Nat.lt_of_add_lt_add_left h)
  refine ⟨t, Finset.mem_range.mp ht, ?_⟩
  cases hcall : s.calls t with
  | counting ptr => exact ⟨ptr, rfl⟩
  | _ =>
    rw [hcall] at hlt
    exact absurd hlt (Nat.lt_irrefl _)

theorem count_step (ht : t < s.threads) {ptr : Nat} (hcall : s.calls t = .counting ptr) :
    ∃ s', s.step (.count t) = some s' ∧ s'.counted = s.counted + 1 ∧ s'.opened = s.opened := by
  have hstep : s.step (.count t) = s.count t := if_neg (by simpa [PoolAction.thread] using ht)
  rw [hstep, PoolSystem.count, hcall]
  refine ⟨_, rfl, ?_, ?_⟩
  · refine amount_eq PoolCall.counted 1 ht hcall rfl rfl ?_
    simp [setCall, PoolCall.counted]
  · exact amount_eq PoolCall.opened 0 ht hcall rfl rfl rfl

end PoolSystem

namespace SizedPool

variable {p q : SizedPool}

/-- The threads that are about to count all do so. -/
theorem count_all (p : SizedPool) :
    ∃ as q, sizedPoolMachine.run p as = some q ∧ q.maxSize = p.maxSize ∧
      q.system.counted = p.system.opened := by
  have hle := PoolSystem.counted_le_opened p.system
  induction hn : p.system.opened - p.system.counted generalizing p with
  | zero => exact ⟨[], p, rfl, rfl, by omega⟩
  | succ n ih =>
    obtain ⟨t, ht, ptr, hcall⟩ := PoolSystem.exists_counting (s := p.system) (by omega)
    obtain ⟨s, hstep, hcounted, hopened⟩ := PoolSystem.count_step ht hcall
    obtain ⟨as, q, hrun, hmax, hq⟩ := ih { p with system := s }
      (PoolSystem.counted_le_opened s) (by simp only []; omega)
    refine ⟨.count t :: as, q, ?_, hmax, hq.trans hopened⟩
    have hsized : p.step (.count t) = some { p with system := s } := by
      rw [step, hstep]
      rfl
    rw [Machine.run]
    change (p.step (.count t)).bind _ = _
    rw [hsized]
    exact hrun

theorem toInt_ofNat_le (n : Nat) : (Int32.ofNat n).toInt ≤ n := by
  rw [Int32.toInt_ofNat', show Int32.size = 2 ^ 32 from rfl, Int.bmod]
  split <;> omega

theorem within_of_opened (hinv : p.system.Inv) (h : p.system.opened ≤ p.maxSize.toNat) :
    p.WithinSize := by
  have hcounted := (PoolSystem.counted_le_opened p.system).trans h
  refine ⟨hcounted, ?_⟩
  rw [hinv.total]
  exact (toInt_ofNat_le _).trans (Int.ofNat_le.mpr hcounted)

theorem opened_reach (h : sizedPoolMachine.Reach OpensWithin p) :
    p.system.Inv ∧ p.system.opened ≤ p.maxSize.toNat := by
  refine h.invariant (P := fun p => p.system.Inv ∧ p.system.opened ≤ p.maxSize.toNat) ?_ ?_
  · rintro p ⟨maxSize, maxAliveTime, maxRequest, threads, rfl⟩
    refine ⟨PoolSystem.inv_start .., ?_⟩
    simp [start, PoolSystem.start, PoolSystem.opened, PoolSystem.amount, PoolCall.opened,
      PoolCall.counted]
  · rintro p a q ⟨hinv, hopened⟩ hguard hstep
    obtain ⟨s, hs, rfl⟩ := Option.map_eq_some_iff.mp hstep
    refine ⟨hinv.step hs, ?_⟩
    by_cases hconnect : ∃ t ptr now, a = .connect t ptr now
    · obtain ⟨t, ptr, now, rfl⟩ := hconnect
      rw [PoolSystem.connect_step hs]
      exact hguard
    · refine (PoolSystem.opened_step hs fun t ptr now heq => ?_).trans hopened
      exact hconnect ⟨t, ptr, now, heq⟩

/-- In every run that opens a connection only where fewer than `m_maxSize` are open, `m_total` is
    never above `m_maxSize`; and the first one opened elsewhere can be counted above it. -/
theorem capacity_kept (h : sizedPoolMachine.Reach OpensWithin p) :
    p.WithinSize ∧ ∀ t ptr now q, p.step (.connect t ptr now) = some q →
      ¬p.OpensWithin (.connect t ptr now) →
      ∃ as r, sizedPoolMachine.run q as = some r ∧ ¬r.WithinSize := by
  obtain ⟨hinv, hopened⟩ := opened_reach h
  refine ⟨within_of_opened hinv hopened, fun t ptr now q hstep hguard => ?_⟩
  obtain ⟨s, hs, rfl⟩ := Option.map_eq_some_iff.mp hstep
  obtain ⟨as, r, hrun, hmax, hcounted⟩ := count_all { p with system := s }
  refine ⟨as, r, hrun, fun hwithin => hguard ?_⟩
  have hle := hwithin.counted
  rw [hcounted, hmax] at hle
  simp only [PoolSystem.connect_step hs] at hle
  exact hle

/-- A connection is opened, used and destroyed, and then another one is opened. -/
def oneAfterAnother : List PoolAction :=
  [.getConnection 0 5, .subtract 0, .connect 0 7 5, .count 0, .handOut 0, .disconnect 7,
    .releasePtr 0 7, .addRequest 0, .decideRelease 0 8, .destroy 0, .uncount 0,
    .getConnection 0 9, .subtract 0, .connect 0 7 9, .count 0]

theorem capacity_kept_oneAfterAnother :
    ∃ p, sizedPoolMachine.run (start 1 1000 2 1) oneAfterAnother = some p ∧
      p.system.pool.total = 1 ∧ p.WithinSize := by
  refine ⟨_, rfl, rfl, (capacity_kept (.of_run oneAfterAnother (.init ⟨1, 1000, 2, 1, rfl⟩) ?_
    rfl)).1⟩
  refine .cons trivial rfl <| .cons trivial rfl <| .cons ?_ rfl <| .cons trivial rfl <|
    .cons trivial rfl <| .cons trivial rfl <| .cons trivial rfl <| .cons trivial rfl <|
    .cons trivial rfl <| .cons trivial rfl <| .cons trivial rfl <| .cons trivial rfl <|
    .cons trivial rfl <| .cons ?_ rfl <| .cons trivial rfl trivial
  · change PoolSystem.opened _ < _
    decide
  · change PoolSystem.opened _ < _
    decide

/-- One thread takes a second connection while it has the first one. -/
def oneBesideAnother : List PoolAction :=
  [.getConnection 0 5, .subtract 0, .connect 0 7 5, .count 0, .handOut 0, .getConnection 0 6,
    .subtract 0, .connect 0 9 6, .count 0]

theorem capacity_exceeded : ¬∀ p, sizedPoolMachine.Reachable p → p.WithinSize := by
  intro h
  have hwithin := h _ (.of_run oneBesideAnother (s := start 1 1000 2 1) ⟨1, 1000, 2, 1, rfl⟩ rfl)
  exact absurd hwithin.total (by decide)

end SizedPool
end CppServerFramework.HTTP

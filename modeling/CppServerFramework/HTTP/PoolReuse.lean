import CppServerFramework.HTTP.ConnectionPoolProps

/-!
# What the pool gives back

`ReleasePtr` keeps a connection past its time, and `getConnection` wants one within it.  A
connection is used again only by a call that has read the clock before the release did.
-/

namespace CppServerFramework.HTTP.PoolSystem

variable {s s' : PoolSystem} {t : Nat} {now : UInt64} {ptr : Nat} {c : HttpConnection}
  {a : PoolAction}

/-! ## What a step does to a connection -/

/-- What a step leaves at an address has been there, with a use less if it is handed out, or is a
    new connection. -/
theorem heap_step (hs : s.step a = some s') (hc : s'.heap ptr = some c) :
    (∃ c₀, s.heap ptr = some c₀ ∧ c.createTime = c₀.createTime ∧
      (c.uses = c₀.uses ∨ c.uses = c₀.uses + 1 ∧
        ∃ t < s.threads, s.calls t = .returning ptr ∧ s'.calls t = .idle)) ∨
    s.heap ptr = none ∧ c.uses = 0 := by
  have hsame : s.heap ptr = some c → (∃ c₀, s.heap ptr = some c₀ ∧ c.createTime = c₀.createTime ∧
      (c.uses = c₀.uses ∨ c.uses = c₀.uses + 1 ∧
        ∃ t < s.threads, s.calls t = .returning ptr ∧ s'.calls t = .idle)) := fun h =>
    ⟨c, h, rfl, Or.inl rfl⟩
  have ht : ∀ t, a.thread = some t → t < s.threads := fun _ => step_lt hs
  have hwrite : ∀ {p : Nat} {x : Option HttpConnection},
      Function.update s.heap p x ptr = some c → ptr = p ∧ x = some c ∨ s.heap ptr = some c := by
    intro p x h
    by_cases heq : ptr = p
    · subst heq
      rw [Function.update_self] at h
      exact Or.inl ⟨rfl, h⟩
    · rw [Function.update_of_ne heq] at h
      exact Or.inr h
  unfold PoolSystem.step at hs
  split at hs
  · cases hs
  cases a with
  | disconnect p =>
    obtain ⟨b, hb, rfl⟩ := Option.map_eq_some_iff.mp hs
    rcases hwrite hc with ⟨rfl, hx⟩ | h
    · cases hx
      exact Or.inl ⟨b, hb, rfl, Or.inl rfl⟩
    · exact Or.inl (hsame h)
  | getConnection t now =>
    simp only [getConnection] at hs
    split at hs
    · split at hs <;> cases hs <;> exact Or.inl (hsame hc)
    · cases hs
  | connect t p now =>
    simp only [connect] at hs
    split at hs
    · split at hs <;> cases hs
      next hnone =>
      rcases hwrite hc with ⟨rfl, hx⟩ | h
      · cases hx
        exact Or.inr ⟨hnone, rfl⟩
      · exact Or.inl (hsame h)
    · cases hs
  | handOut t =>
    simp only [handOut] at hs
    split at hs <;> cases hs
    next p hcall =>
    rcases hwrite hc with ⟨rfl, hx⟩ | h
    · obtain ⟨b, hb, rfl⟩ := Option.map_eq_some_iff.mp hx
      exact Or.inl ⟨b, hb, rfl, Or.inr ⟨rfl, t, ht t rfl, hcall, Function.update_self ..⟩⟩
    · exact Or.inl (hsame h)
  | deleteInvalid t | destroy t =>
    simp only [deleteInvalid, destroy, deref] at hs
    split at hs <;> [rw [Option.some.injEq] at hs; cases hs]
    split at hs <;> subst hs
    · rcases hwrite hc with ⟨-, hx⟩ | h
      · cases hx
      · exact Or.inl (hsame h)
    · exact Or.inl (hsame hc)
  | addRequest t =>
    simp only [addRequest, deref] at hs
    split at hs <;> [rw [Option.some.injEq] at hs; cases hs]
    split at hs <;> subst hs
    · next b hb =>
      rcases hwrite hc with ⟨rfl, hx⟩ | h
      · cases hx
        exact Or.inl ⟨b, hb, rfl, Or.inl rfl⟩
      · exact Or.inl (hsame h)
    · exact Or.inl (hsame hc)
  | decideRelease t now =>
    simp only [decideRelease, deref] at hs
    split at hs <;> [rw [Option.some.injEq] at hs; cases hs]
    split at hs <;> subst hs <;> exact Or.inl (hsame hc)
  | releasePtr t p =>
    simp only [releasePtr] at hs
    split at hs
    · split at hs <;> cases hs
      exact Or.inl (hsame hc)
    · cases hs
  | subtract t | fail t | count t | uncount t | push t =>
    simp only [subtract, fail, count, uncount, push] at hs
    split at hs <;> cases hs
    exact Or.inl (hsame hc)

/-! ## What a step does to a call -/

/-- How a call comes to `k`. -/
def Leads (s s' : PoolSystem) (a : PoolAction) (t : Nat) : PoolCall → Prop
  | .pushing ptr => ∃ c now, s.heap ptr = some c ∧ c.deadline s.pool.maxAliveTime < now ∧
    ⟨c, now, true⟩ ∈ s'.releases
  | .counting ptr => s.heap ptr = none
  | .returning ptr => s.calls t = .counting ptr ∨ ∃ size, s.calls t = .deleting [] size (some ptr)
  | .deleting _ _ (some ptr) => (∃ rest size, s.calls t = .deleting rest size (some ptr)) ∨
    ∃ now c, a = .getConnection t now ∧ ptr ∈ s.pool.conns ∧ s.heap ptr = some c ∧
      ¬c.deadline s.pool.maxAliveTime < now
  | _ => True

theorem call_step (hs : s.step a = some s') (t : Nat) :
    s'.calls t = s.calls t ∨ Leads s s' a t (s'.calls t) := by
  have hmoves : ∀ {u : Nat} {k : PoolCall}, s'.calls = Function.update s.calls u k →
      Leads s s' a u k → s'.calls t = s.calls t ∨ Leads s s' a t (s'.calls t) := by
    intro u k hcalls hleads
    by_cases heq : t = u
    · subst heq
      rw [hcalls, Function.update_self]
      exact Or.inr hleads
    · rw [hcalls, Function.update_of_ne heq]
      exact Or.inl rfl
  unfold PoolSystem.step at hs
  split at hs
  · cases hs
  cases a with
  | disconnect p =>
    obtain ⟨b, -, rfl⟩ := Option.map_eq_some_iff.mp hs
    exact Or.inl rfl
  | getConnection u now =>
    simp only [getConnection] at hs
    split at hs
    · split at hs <;> cases hs
      · next invalid ptr rest hpop =>
        refine hmoves rfl ?_
        cases ptr with
        | none => trivial
        | some ptr =>
          obtain ⟨c, hc, -, hlate⟩ := HttpConnectionPool.popConns_found hpop rfl
          have hmem : ptr ∈ s.pool.conns := by
            rw [← HttpConnectionPool.popConns_append hpop]
            simp
          exact Or.inr ⟨now, c, rfl, hmem, hc, hlate⟩
      · exact Or.inl rfl
    · cases hs
  | deleteInvalid u =>
    simp only [deleteInvalid, deref] at hs
    split at hs <;> [rw [Option.some.injEq] at hs; cases hs]
    next conn rest size ptr hcall =>
    split at hs <;> subst hs
    · refine hmoves rfl ?_
      cases ptr with
      | none => trivial
      | some ptr => exact Or.inl ⟨_, _, hcall⟩
    · exact Or.inl rfl
  | subtract u =>
    simp only [subtract] at hs
    split at hs <;> cases hs
    next size ptr hcall =>
    cases ptr with
    | none => exact hmoves rfl trivial
    | some ptr => exact hmoves rfl (Or.inr ⟨size, hcall⟩)
  | connect u p now =>
    simp only [connect] at hs
    split at hs
    · split at hs <;> cases hs
      next hnone => exact hmoves rfl hnone
    · cases hs
  | count u =>
    simp only [count] at hs
    split at hs <;> cases hs
    next p hcall => exact hmoves rfl (Or.inl hcall)
  | decideRelease u now =>
    simp only [decideRelease, deref] at hs
    split at hs <;> [rw [Option.some.injEq] at hs; cases hs]
    next p hcall =>
    split at hs <;> subst hs
    · next c hc =>
      refine hmoves rfl ?_
      split
      · trivial
      · next hkept =>
        have hlate : c.deadline s.pool.maxAliveTime < now := by
          simp only [HttpConnectionPool.destroys, Bool.or_eq_true, decide_eq_true_eq,
            not_or] at hkept
          exact UInt64.not_le.mp hkept.1.2
        exact ⟨c, now, hc, hlate, by simp [hkept]⟩
    · exact Or.inl rfl
  | addRequest u | destroy u =>
    simp only [addRequest, destroy, deref] at hs
    split at hs <;> [rw [Option.some.injEq] at hs; cases hs]
    split at hs <;> subst hs
    · exact hmoves rfl trivial
    · exact Or.inl rfl
  | releasePtr u p =>
    simp only [releasePtr] at hs
    split at hs
    · split at hs <;> cases hs
      exact hmoves rfl trivial
    · cases hs
  | fail u | handOut u | uncount u | push u =>
    simp only [fail, handOut, uncount, push] at hs
    split at hs <;> cases hs
    exact hmoves rfl trivial

/-- What is in `m_conns` has been there or is pushed, and what is recorded stays. -/
theorem conns_step (hs : s.step a = some s') :
    s'.pool.maxAliveTime = s.pool.maxAliveTime ∧ s'.threads = s.threads ∧
      (∀ r ∈ s.releases, r ∈ s'.releases) ∧
      ∀ ptr ∈ s'.pool.conns, ptr ∈ s.pool.conns ∨ ∃ t < s.threads, s.calls t = .pushing ptr := by
  have ht : ∀ t, a.thread = some t → t < s.threads := fun _ => step_lt hs
  unfold PoolSystem.step at hs
  split at hs
  · cases hs
  cases a with
  | disconnect p =>
    obtain ⟨c, -, rfl⟩ := Option.map_eq_some_iff.mp hs
    exact ⟨rfl, rfl, fun _ hr => hr, fun _ hptr => Or.inl hptr⟩
  | getConnection t now =>
    simp only [getConnection] at hs
    split at hs
    · split at hs <;> cases hs
      · next invalid ptr rest hpop =>
        refine ⟨rfl, rfl, fun _ hr => hr, fun p (hp : p ∈ rest) => Or.inl ?_⟩
        rw [← HttpConnectionPool.popConns_append hpop]
        simp [hp]
      · exact ⟨rfl, rfl, fun _ hr => hr, fun _ hptr => Or.inl hptr⟩
    · cases hs
  | push t =>
    simp only [push] at hs
    split at hs <;> cases hs
    next ptr hcall =>
    refine ⟨rfl, rfl, fun _ hr => hr, fun p hp => ?_⟩
    rcases List.mem_append.mp hp with hp | hp
    · exact Or.inl hp
    · rw [List.mem_singleton] at hp
      exact Or.inr ⟨t, ht t rfl, hp ▸ hcall⟩
  | decideRelease t now =>
    simp only [decideRelease, deref] at hs
    split at hs <;> cases hs
    split
    · exact ⟨rfl, rfl, fun _ hr => List.mem_cons_of_mem _ hr, fun _ hptr => Or.inl hptr⟩
    · exact ⟨rfl, rfl, fun _ hr => hr, fun _ hptr => Or.inl hptr⟩
  | deleteInvalid t | addRequest t | destroy t =>
    simp only [deleteInvalid, addRequest, destroy, deref] at hs
    split at hs <;> cases hs
    split <;> exact ⟨rfl, rfl, fun _ hr => hr, fun _ hptr => Or.inl hptr⟩
  | connect t ptr now | releasePtr t ptr =>
    simp only [connect, releasePtr] at hs
    split at hs
    · split at hs <;> cases hs
      exact ⟨rfl, rfl, fun _ hr => hr, fun _ hptr => Or.inl hptr⟩
    · cases hs
  | subtract t | fail t | count t | handOut t | uncount t =>
    simp only [subtract, fail, count, handOut, uncount] at hs
    split at hs <;> cases hs
    exact ⟨rfl, rfl, fun _ hr => hr, fun _ hptr => Or.inl hptr⟩

/-! ## What the pool has -/

/-- The connections in the pool, and those about to be pushed. -/
def Pooled (s : PoolSystem) (ptr : Nat) : Prop :=
  ptr ∈ s.pool.conns ∨ ∃ t < s.threads, s.calls t = .pushing ptr

/-- Each of them was past its time when it was released. -/
def Late (s : PoolSystem) : Prop :=
  ∀ ptr c, s.heap ptr = some c → s.Pooled ptr →
    ∃ r ∈ s.releases, r.kept = true ∧ c.deadline s.pool.maxAliveTime < r.now

theorem Pooled.live (h : s.Pooled ptr) (hinv : s.Inv) : s.heap ptr ≠ none := by
  rcases h with hmem | ⟨t, ht, hcall⟩
  · exact hinv.live hmem
  · obtain ⟨c, hc, -⟩ := hinv.get ht hcall (a := ptr) (List.mem_singleton_self _)
    simp [hc]

theorem Late.step (h : s.Late) (hinv : s.Inv) (hs : s.step a = some s') : s'.Late := by
  intro ptr c hc hpooled
  obtain ⟨halive, hthreads, hreleases, hconns⟩ := conns_step hs
  have hlead : s.Pooled ptr ∨ ∃ t, Leads s s' a t (.pushing ptr) := by
    rcases hpooled with hmem | ⟨t, ht, hcall⟩
    · exact Or.inl (hconns ptr hmem)
    · rcases call_step hs t with hsame | hleads
      · exact Or.inl (Or.inr ⟨t, hthreads ▸ ht, hsame ▸ hcall⟩)
      · exact Or.inr ⟨t, hcall ▸ hleads⟩
  have hdeadline : ∀ {c₀}, s.heap ptr = some c₀ →
      c.deadline s'.pool.maxAliveTime = c₀.deadline s.pool.maxAliveTime := by
    intro c₀ hc₀
    rcases heap_step hs hc with ⟨c₁, hc₁, htime, -⟩ | ⟨hnone, -⟩
    · cases hc₁.symm.trans hc₀
      rw [halive, HttpConnection.deadline, HttpConnection.deadline, htime]
    · cases hnone.symm.trans hc₀
  rcases hlead with hpooled | ⟨t, c₀, now, hc₀, hlate, hrecord⟩
  · obtain ⟨c₀, hc₀⟩ := Option.ne_none_iff_exists'.mp (hpooled.live hinv)
    obtain ⟨r, hr, hkept, hlate⟩ := h ptr c₀ hc₀ hpooled
    exact ⟨r, hreleases r hr, hkept, (hdeadline hc₀).symm ▸ hlate⟩
  · exact ⟨_, hrecord, rfl, (hdeadline hc₀).symm ▸ hlate⟩

/-- A call of `getConnection` finds a connection only if it has read the clock before a release
    that has kept one. -/
theorem found_early (hlate : s.Late) (hs : s.step (.getConnection t now) = some s')
    {invalid : List Nat} {size : Nat} (hfound : s'.calls t = .deleting invalid size (some ptr)) :
    ∃ r ∈ s.releases, r.kept = true ∧ now < r.now := by
  have hidle : s.calls t = .idle := by
    unfold PoolSystem.step at hs
    split at hs
    · cases hs
    · simp only [getConnection] at hs
      split at hs
      · assumption
      · cases hs
  rcases call_step hs t with hsame | hleads
  · rw [hfound, hidle] at hsame
    cases hsame
  · rw [hfound] at hleads
    rcases hleads with ⟨rest, size, hcall⟩ | ⟨now', c, heq, hmem, hc, hnot⟩
    · rw [hidle] at hcall
      cases hcall
    · cases heq
      obtain ⟨r, hr, hkept, hbefore⟩ := hlate ptr c hc (Or.inl hmem)
      exact ⟨r, hr, hkept, UInt64.lt_of_le_of_lt (UInt64.not_lt.mp hnot) hbefore⟩

/-! ## Runs with a clock that does not go back -/

/-- `getConnection` reads the clock behind every release. -/
def ClockForward (s : PoolSystem) : PoolAction → Prop
  | .getConnection _ now => ∀ r ∈ s.releases, r.now ≤ now
  | _ => True

/-- No connection has been handed out twice, and none that a call has is about to be. -/
structure Once (s : PoolSystem) : Prop where
  uses : ∀ ptr c, s.heap ptr = some c → c.uses ≤ 1
  new : ∀ t < s.threads, ∀ ptr c, s.calls t = .counting ptr ∨ s.calls t = .returning ptr →
    s.heap ptr = some c → c.uses = 0
  found : ∀ t < s.threads, ∀ rest size ptr, s.calls t ≠ .deleting rest size (some ptr)
  acquired : ∀ q ∈ s.acquisitions, q.found = none

/-- No two calls have one connection. -/
theorem Inv.sole (h : s.Inv) {u : Nat} (ht : t < s.threads) (hu : u < s.threads) (hne : t ≠ u)
    (hptr : ptr ∈ (s.calls t).ptrs) : ptr ∉ (s.calls u).ptrs := by
  intro hptr'
  have hplaces : s.places ptr ≤ 1 := by
    rw [← count_held, h.owned.count]
    split <;> omega
  have hmem : u ∈ (Finset.range s.threads).erase t :=
    Finset.mem_erase.mpr ⟨hne.symm, Finset.mem_range.mpr hu⟩
  rw [places, ← Finset.add_sum_erase _ _ (Finset.mem_range.mpr ht),
    ← Finset.add_sum_erase _ _ hmem] at hplaces
  have hone := List.count_pos_iff.mpr hptr
  have hone' := List.count_pos_iff.mpr hptr'
  omega

/-- A call with a connection that nobody has had keeps it so. -/
theorem Once.new_step (h : s.Once) (hinv : s.Inv) (hs : s.step a = some s') (ht : t < s.threads)
    (hnew : s.calls t = .counting ptr ∨ s.calls t = .returning ptr)
    (hbusy : s'.calls t ≠ .idle) (hc : s'.heap ptr = some c) : c.uses = 0 := by
  rcases heap_step hs hc with ⟨c₀, hc₀, -, hsame | ⟨-, u, hu, hreturning, hidle⟩⟩ | ⟨-, hzero⟩
  · rw [hsame]
    exact h.new t ht ptr c₀ hnew hc₀
  · have hne : t ≠ u := fun heq => hbusy (heq ▸ hidle)
    have hptr : ptr ∈ (s.calls t).ptrs := by
      rcases hnew with hcall | hcall <;> rw [hcall] <;> exact List.mem_singleton_self _
    refine absurd ?_ (hinv.sole ht hu hne hptr)
    rw [hreturning]
    exact List.mem_singleton_self _
  · exact hzero

theorem Once.step (h : s.Once) (hinv : s.Inv) (hlate : s.Late) (hguard : ClockForward s a)
    (hs : s.step a = some s') : s'.Once := by
  obtain ⟨-, hthreads, -, -⟩ := conns_step hs
  have hfound : ∀ t < s.threads, ∀ rest size ptr, s'.calls t ≠ .deleting rest size (some ptr) := by
    intro t ht rest size ptr hcall
    rcases call_step hs t with hsame | hleads
    · exact h.found t ht rest size ptr (hsame ▸ hcall)
    · rw [hcall] at hleads
      rcases hleads with ⟨rest', size', hcall'⟩ | ⟨now, c, rfl, -⟩
      · exact h.found t ht rest' size' ptr hcall'
      · obtain ⟨r, hr, -, hbefore⟩ := found_early hlate hs hcall
        exact UInt64.not_le.mpr hbefore (hguard r hr)
  refine ⟨fun ptr c hc => ?_, fun t ht ptr c hnew hc => ?_, hthreads ▸ hfound, fun q hq => ?_⟩
  · rcases heap_step hs hc with ⟨c₀, hc₀, -, hsame | ⟨hmore, u, hu, hcall, -⟩⟩ | ⟨-, hzero⟩
    · rw [hsame]
      exact h.uses ptr c₀ hc₀
    · have hzero := h.new u hu ptr c₀ (Or.inr hcall) hc₀
      omega
    · omega
  · rw [hthreads] at ht
    have hbusy : s'.calls t ≠ .idle := by
      rcases hnew with hcall | hcall <;> simp [hcall]
    rcases call_step hs t with hsame | hleads
    · exact h.new_step hinv hs ht (hsame ▸ hnew) hbusy hc
    · rcases hnew with hcall | hcall
      · rw [hcall] at hleads
        rcases heap_step hs hc with ⟨c₀, hc₀, -⟩ | ⟨-, hzero⟩
        · cases hc₀.symm.trans hleads
        · exact hzero
      · rw [hcall] at hleads
        rcases hleads with hcounting | ⟨size, hdeleting⟩
        · exact h.new_step hinv hs ht (Or.inl hcounting) hbusy hc
        · exact absurd hdeleting (h.found t ht _ _ _)
  · by_cases hget : ∃ t now, a = .getConnection t now
    · obtain ⟨t, now, rfl⟩ := hget
      have ht : t < s.threads := step_lt hs rfl
      unfold PoolSystem.step at hs
      rw [if_neg (by simpa [PoolAction.thread] using ht)] at hs
      simp only [getConnection] at hs
      split at hs
      · split at hs <;> cases hs
        · next invalid ptr rest hpop =>
          rcases List.mem_cons.mp hq with rfl | hq
          · cases ptr with
            | none => rfl
            | some ptr => exact absurd (Function.update_self ..) (hfound t ht invalid _ ptr)
          · exact h.acquired q hq
        · exact h.acquired q hq
      · cases hs
    · by_cases hdecide : ∃ t now, a = .decideRelease t now
      · obtain ⟨t, now, rfl⟩ := hdecide
        unfold PoolSystem.step at hs
        split at hs
        · cases hs
        simp only [decideRelease, deref] at hs
        split at hs <;> [rw [Option.some.injEq] at hs; cases hs]
        split at hs <;> subst hs <;> exact h.acquired q hq
      · obtain ⟨-, -, -, hacquisitions⟩ := step_records hs
          (fun t now heq => hget ⟨t, now, heq⟩) (fun t now heq => hdecide ⟨t, now, heq⟩)
        exact h.acquired q (hacquisitions ▸ hq)

/-- While the clock does not go back between a release and a `getConnection` behind it, every
    `getConnection` opens a connection of its own, and none is ever handed out twice. -/
theorem pool_reuses_nothing (h : poolMachine.Reach ClockForward s) :
    (∀ q ∈ s.acquisitions, q.found = none) ∧
      ∀ ptr c, s.heap ptr = some c → c.uses ≤ 1 := by
  have hall : (s.Inv ∧ s.Late) ∧ s.Once := by
    refine h.invariant (P := fun s => (s.Inv ∧ s.Late) ∧ s.Once) ?_ ?_
    · rintro s ⟨maxAliveTime, maxRequest, threads, rfl⟩
      exact ⟨⟨inv_start .., fun ptr c hc => (by cases hc)⟩, fun ptr c hc => (by cases hc),
        fun t _ ptr c _ hc => (by cases hc), fun t _ rest size ptr hcall => (by cases hcall),
        fun q hq => (by cases hq)⟩
    · exact fun s a t hs hg hstep => ⟨⟨hs.1.1.step hstep, hs.1.2.step hs.1.1 hstep⟩,
        hs.2.step hs.1.1 hs.1.2 hg hstep⟩
  exact ⟨hall.2.acquired, hall.2.uses⟩

/-- A connection is kept past its time, and the next call deletes it and opens another one. -/
def keptPastTime : List PoolAction :=
  [.getConnection 0 5, .subtract 0, .connect 0 7 5, .count 0, .handOut 0, .releasePtr 0 7,
    .addRequest 0, .decideRelease 0 2000, .push 0, .getConnection 0 2001, .deleteInvalid 0,
    .subtract 0, .connect 0 9 2001, .count 0, .handOut 0]

theorem pool_reuses_nothing_keptPastTime :
    ∃ s, poolMachine.run (start 1000 9 1) keptPastTime = some s ∧
      s.acquisitions.map Acquisition.found = [none, none] ∧
      (s.heap 9).map HttpConnection.uses = some 1 ∧
      ∀ ptr c, s.heap ptr = some c → c.uses ≤ 1 := by
  refine ⟨_, rfl, rfl, rfl, (pool_reuses_nothing (.of_run keptPastTime
    (.init ⟨1000, 9, 1, rfl⟩) ?_ rfl)).2⟩
  refine .cons (fun r hr => (by cases hr)) rfl <| .cons trivial rfl <| .cons trivial rfl <|
    .cons trivial rfl <| .cons trivial rfl <| .cons trivial rfl <| .cons trivial rfl <|
    .cons trivial rfl <| .cons trivial rfl <| .cons (fun r hr => ?_) rfl <| .cons trivial rfl <|
    .cons trivial rfl <| .cons trivial rfl <| .cons trivial rfl <| .cons trivial rfl trivial
  rw [List.mem_singleton.mp hr]
  decide

end CppServerFramework.HTTP.PoolSystem

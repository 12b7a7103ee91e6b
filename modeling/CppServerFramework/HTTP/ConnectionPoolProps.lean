import CppServerFramework.HTTP.ConnectionPool
import CppServerFramework.Misc.Ownership
import Mathlib.Algebra.BigOperators.Group.Finset.Basic
import Mathlib.Algebra.Order.Group.Multiset
import Mathlib.Tactic.Abel
import Mathlib.Tactic.FinCases

/-!
# Ownership and reuse in the connection pool

Every connection is in `m_conns`, handed out, or in one call; the places together own the heap.
The reuse policy of the pool follows from what the steps record.
-/

namespace CppServerFramework.HTTP

open Ownership

/-! ## The locked loop -/

namespace HttpConnectionPool

variable {pool : HttpConnectionPool} {heap : Nat → Option HttpConnection} {now : UInt64}
  {conns : List Nat} {r : List Nat × Option Nat × List Nat}

/-- The loop passes over a connection, or stops at it. -/
theorem popConns_cons {conn : Nat} {c : HttpConnection} (hc : heap conn = some c) :
    pool.popConns heap now (conn :: conns) =
      if c.connected ∧ ¬c.deadline pool.maxAliveTime < now then some ([], some conn, conns)
      else (pool.popConns heap now conns).map fun r => (conn :: r.1, r.2) := by
  rw [popConns, hc, Option.bind_some]
  cases c.connected
  · simp
  · by_cases hlt : c.deadline pool.maxAliveTime < now <;> simp [hlt]

theorem popConns_isSome (h : ∀ a ∈ conns, heap a ≠ none) :
    ∃ r, pool.popConns heap now conns = some r := by
  induction conns with
  | nil => exact ⟨_, rfl⟩
  | cons conn conns ih =>
    obtain ⟨c, hc⟩ := Option.ne_none_iff_exists'.mp (h conn (by simp))
    obtain ⟨r, hr⟩ := ih fun a ha => h a (by simp [ha])
    rw [popConns_cons hc, hr]
    split
    · exact ⟨_, rfl⟩
    · exact ⟨_, rfl⟩

/-- The invalid ones, the one found and the rest are the pool in its order. -/
theorem popConns_append (h : pool.popConns heap now conns = some r) :
    r.1 ++ (r.2.1.toList ++ r.2.2) = conns := by
  induction conns generalizing r with
  | nil =>
    cases h
    rfl
  | cons conn conns ih =>
    cases hc : heap conn with
    | none => simp [popConns, hc] at h
    | some c =>
      rw [popConns_cons hc] at h
      split at h
      · cases h
        rfl
      · obtain ⟨q, hq, rfl⟩ := Option.map_eq_some_iff.mp h
        exact congrArg (conn :: ·) (ih hq)

/-- The one found is connected and not past its time. -/
theorem popConns_found (h : pool.popConns heap now conns = some r) {a : Nat}
    (ha : r.2.1 = some a) :
    ∃ c, heap a = some c ∧ c.connected ∧ ¬c.deadline pool.maxAliveTime < now := by
  induction conns generalizing r with
  | nil =>
    cases h
    cases ha
  | cons conn conns ih =>
    cases hc : heap conn with
    | none => simp [popConns, hc] at h
    | some c =>
      rw [popConns_cons hc] at h
      split at h
      · next hvalid =>
        cases h
        cases ha
        exact ⟨c, hc, hvalid⟩
      · obtain ⟨q, hq, rfl⟩ := Option.map_eq_some_iff.mp h
        exact ih hq ha

/-- Where none is found, all are disconnected or past their time. -/
theorem popConns_none (h : pool.popConns heap now conns = some r) (hnone : r.2.1 = none) {a : Nat}
    (ha : a ∈ conns) {c : HttpConnection} (hc : heap a = some c) (hconnected : c.connected) :
    c.deadline pool.maxAliveTime < now := by
  induction conns generalizing r with
  | nil => cases ha
  | cons conn conns ih =>
    cases hd : heap conn with
    | none => simp [popConns, hd] at h
    | some d =>
      rw [popConns_cons hd] at h
      split at h
      · cases h
        cases hnone
      · next hinvalid =>
        obtain ⟨q, hq, rfl⟩ := Option.map_eq_some_iff.mp h
        rcases List.mem_cons.mp ha with rfl | ha
        · rw [hc] at hd
          cases hd
          by_contra hlt
          exact hinvalid ⟨hconnected, hlt⟩
        · exact ih hq hnone ha

end HttpConnectionPool

/-! ## The places -/

/-- What is known of a connection where it is: `ready` to be handed out, `lent`, `back` with its
    use counted, or `done`. -/
inductive PoolTag where
  | ready
  | lent
  | back
  | done

/-- The uses of a connection under a tag. -/
def PoolTag.Fits (maxRequest : UInt32) : PoolTag → HttpConnection → Prop
  | .ready, c => c.request = c.uses ∧ (c.uses = 0 ∨ c.uses < maxRequest.toNat)
  | .lent, c => c.request + 1 = c.uses ∧ c.uses ≤ max 1 maxRequest.toNat
  | .back, c => c.request = c.uses ∧ c.uses ≤ max 1 maxRequest.toNat
  | .done, c => c.uses ≤ max 1 maxRequest.toNat

theorem PoolTag.Fits.uses_le {k : PoolTag} {maxRequest : UInt32} {c : HttpConnection}
    (h : k.Fits maxRequest c) : c.uses ≤ max 1 maxRequest.toNat := by
  cases k with
  | ready =>
    obtain ⟨-, h⟩ := h
    omega
  | lent | back => exact h.2
  | done => exact h

/-- The addresses a call has. -/
def PoolCall.ptrs : PoolCall → List Nat
  | .deleting rest _ ptr => rest ++ ptr.toList
  | .counting ptr | .returning ptr | .pushing ptr | .releasing ptr | .deciding ptr
  | .destroying ptr => [ptr]
  | .idle | .connecting | .uncounting => []

/-- What a call knows of them. -/
def PoolCall.tag : PoolCall → PoolTag
  | .releasing _ => .lent
  | .deciding _ => .back
  | .destroying _ => .done
  | _ => .ready

/-- The connections of a call that `m_total` counts. -/
def PoolCall.counted : PoolCall → Nat
  | .deleting _ size ptr => size + ptr.toList.length
  | .returning _ | .pushing _ | .releasing _ | .deciding _ | .destroying _ | .uncounting => 1
  | .idle | .connecting | .counting _ => 0

namespace PoolSystem

/-- Addresses under one tag. -/
def tagged (k : PoolTag) (l : List Nat) : Multiset (Nat × PoolTag) :=
  ((l.map fun a => (a, k) : List (Nat × PoolTag)) : Multiset (Nat × PoolTag))

@[simp] theorem tagged_nil (k : PoolTag) : tagged k [] = 0 := rfl

@[simp] theorem tagged_cons (k : PoolTag) (a : Nat) (l : List Nat) :
    tagged k (a :: l) = (a, k) ::ₘ tagged k l := rfl

@[simp] theorem tagged_append (k : PoolTag) (l m : List Nat) :
    tagged k (l ++ m) = tagged k l + tagged k m := by
  rw [tagged, List.map_append, ← Multiset.coe_add]
  rfl

theorem tagged_perm {k : PoolTag} {l m : List Nat} (h : l.Perm m) : tagged k l = tagged k m :=
  Multiset.coe_eq_coe.mpr (h.map _)

theorem add_tagged_singleton (A M : Multiset (Nat × PoolTag)) (k : PoolTag) (a : Nat) :
    A + tagged k [a] + M = (a, k) ::ₘ (A + M) := by
  rw [tagged_cons, tagged_nil, Multiset.add_cons, Multiset.cons_add, add_zero]

variable {s s' : PoolSystem} {t : Nat} {c c' : PoolCall}

/-- What the pool and the holders have. -/
def shared (s : PoolSystem) : Multiset (Nat × PoolTag) :=
  tagged .ready s.pool.conns + tagged .lent s.leases

/-- All that is held anywhere. -/
def held (s : PoolSystem) : Multiset (Nat × PoolTag) :=
  s.shared + ∑ v ∈ Finset.range s.threads, tagged (s.calls v).tag (s.calls v).ptrs

/-- The connections that `m_total` counts. -/
def counted (s : PoolSystem) : Nat :=
  s.pool.conns.length + s.leases.length + ∑ v ∈ Finset.range s.threads, (s.calls v).counted

/-- A sum over the calls, with that of thread `t` for itself. -/
theorem sum_calls {M : Type} [AddCommMonoid M] (g : PoolCall → M) (ht : t < s.threads)
    (hcall : s.calls t = c) : ∑ v ∈ Finset.range s.threads, g (s.calls v) =
      g c + ∑ v ∈ (Finset.range s.threads).erase t, g (s.calls v) := by
  rw [← hcall, Finset.add_sum_erase _ (fun v => g (s.calls v)) (Finset.mem_range.mpr ht)]

theorem sum_others {M : Type} [AddCommMonoid M] (g : PoolCall → M)
    (hcalls : s'.calls = Function.update s.calls t c') :
    ∑ v ∈ (Finset.range s.threads).erase t, g (s'.calls v) =
      ∑ v ∈ (Finset.range s.threads).erase t, g (s.calls v) := by
  refine Finset.sum_congr rfl fun v hv => ?_
  rw [hcalls, Function.update_of_ne (Finset.ne_of_mem_erase hv)]

/-- What every run keeps. -/
structure Inv (s : PoolSystem) : Prop where
  owned : Owned (PoolTag.Fits s.pool.maxRequest) s.heap s.held
  total : s.pool.total = Int32.ofNat s.counted
  sound : s.useAfterFree = false

/-- A step of thread `t`: whatever the others have, the thread, the pool and the holders together
    own as much as before, and `m_total` follows. -/
theorem Inv.moves (h : s.Inv) (ht : t < s.threads) (hcall : s.calls t = c)
    (hcalls : s'.calls = Function.update s.calls t c') (hthreads : s'.threads = s.threads)
    (hmax : s'.pool.maxRequest = s.pool.maxRequest)
    (howned : ∀ M, Owned (PoolTag.Fits s.pool.maxRequest) s.heap
        (s.shared + tagged c.tag c.ptrs + M) →
      Owned (PoolTag.Fits s.pool.maxRequest) s'.heap (s'.shared + tagged c'.tag c'.ptrs + M))
    (htotal : ∀ n, s.pool.total =
        Int32.ofNat (s.pool.conns.length + s.leases.length + c.counted + n) →
      s'.pool.total = Int32.ofNat (s'.pool.conns.length + s'.leases.length + c'.counted + n))
    (hsound : s'.useAfterFree = s.useAfterFree) : s'.Inv := by
  have hcall' : s'.calls t = c' := by
    rw [hcalls, Function.update_self]
  have ht' : t < s'.threads := hthreads ▸ ht
  refine ⟨?_, ?_, hsound.trans h.sound⟩
  · have howns := h.owned
    rw [held, sum_calls (fun c => tagged c.tag c.ptrs) ht hcall, ← add_assoc] at howns
    rw [held, sum_calls (fun c => tagged c.tag c.ptrs) ht' hcall', ← add_assoc, hthreads,
      sum_others (fun c => tagged c.tag c.ptrs) hcalls, hmax]
    exact howned _ howns
  · have hcounts := h.total
    rw [counted, sum_calls PoolCall.counted ht hcall, ← add_assoc] at hcounts
    rw [counted, sum_calls PoolCall.counted ht' hcall', ← add_assoc, hthreads, sum_others _ hcalls]
    exact htotal _ hcounts

theorem Inv.live (h : s.Inv) {a : Nat} (ha : a ∈ s.pool.conns) : s.heap a ≠ none := by
  refine (h.owned.live a).mpr (Multiset.mem_map.mpr ⟨(a, .ready), ?_, rfl⟩)
  exact Multiset.mem_add.mpr (Or.inl (Multiset.mem_add.mpr (Or.inl
    (Multiset.mem_coe.mpr (List.mem_map_of_mem ha)))))

/-- What thread `t` has is there. -/
theorem Inv.get (h : s.Inv) (ht : t < s.threads) (hcall : s.calls t = c) {a : Nat}
    (ha : a ∈ c.ptrs) : ∃ b, s.heap a = some b ∧ c.tag.Fits s.pool.maxRequest b := by
  refine h.owned.fits (a, c.tag) ?_
  rw [held, sum_calls (fun c => tagged c.tag c.ptrs) ht hcall]
  exact Multiset.mem_add.mpr (Or.inr (Multiset.mem_add.mpr (Or.inl
    (Multiset.mem_coe.mpr (List.mem_map_of_mem ha)))))

theorem deref_some {ptr : Nat} {b : HttpConnection} {k : HttpConnection → PoolSystem}
    (hb : s.heap ptr = some b) : s.deref ptr k = k b := by
  rw [deref, hb]

/-! ## The steps keep the accounts -/

theorem Inv.disconnect (h : s.Inv) {ptr : Nat} (hs : s.disconnect ptr = some s') : s'.Inv := by
  obtain ⟨b, hb, rfl⟩ := Option.map_eq_some_iff.mp hs
  refine ⟨h.owned.modify hb fun k hk => ?_, h.total, h.sound⟩
  cases k <;> exact hk

theorem Inv.getConnection (h : s.Inv) (ht : t < s.threads) {now : UInt64}
    (hs : s.getConnection t now = some s') : s'.Inv := by
  rw [PoolSystem.getConnection] at hs
  split at hs <;> try cases hs
  rename_i hcall
  have hrun : ∃ r, s.pool.popConns s.heap now s.pool.conns = some r :=
    HttpConnectionPool.popConns_isSome fun a ha => h.live ha
  obtain ⟨⟨invalid, ptr, rest⟩, hr⟩ := hrun
  have happend : invalid ++ (ptr.toList ++ rest) = s.pool.conns :=
    HttpConnectionPool.popConns_append hr
  rw [hr] at hs
  cases hs
  refine h.moves ht hcall rfl rfl rfl (fun M hM => ?_) (fun n hn => ?_) rfl
  · have heq : s.shared + tagged PoolCall.idle.tag PoolCall.idle.ptrs =
        tagged .ready rest + tagged .lent s.leases + tagged .ready (invalid ++ ptr.toList) := by
      rw [shared, ← happend, tagged_append, tagged_append, tagged_append]
      change _ + 0 = _
      abel
    rw [heq] at hM
    exact hM
  · rw [hn, ← happend]
    simp only [setCall, PoolCall.counted, List.length_append]
    congr 1
    omega

theorem Inv.deleteInvalid (h : s.Inv) (ht : t < s.threads) (hs : s.deleteInvalid t = some s') :
    s'.Inv := by
  rw [PoolSystem.deleteInvalid] at hs
  split at hs <;> try cases hs
  next conn rest size ptr hcall =>
  obtain ⟨b, hb, -⟩ := h.get ht hcall (a := conn) (by simp [PoolCall.ptrs])
  rw [deref_some hb] at *
  refine h.moves ht hcall rfl rfl rfl (fun M hM => ?_) (fun n hn => hn) rfl
  have heq : s.shared + tagged PoolTag.ready (conn :: (rest ++ ptr.toList)) + M =
      (conn, .ready) ::ₘ (s.shared + tagged .ready (rest ++ ptr.toList) + M) := by
    rw [tagged_cons, Multiset.add_cons, Multiset.cons_add]
  exact (heq ▸ hM : Owned _ _ _).free

theorem Inv.subtract (h : s.Inv) (ht : t < s.threads) (hs : s.subtract t = some s') : s'.Inv := by
  rw [PoolSystem.subtract] at hs
  split at hs <;> try cases hs
  next size ptr hcall =>
  refine h.moves ht hcall rfl rfl rfl (fun M hM => ?_) (fun n hn => ?_) rfl
  · cases ptr <;> exact hM
  · change s.pool.total - Int32.ofNat size = _
    rw [hn]
    cases ptr <;>
      simp only [setCall, PoolCall.counted, Option.toList, List.length_nil, List.length_cons]
    all_goals
      rw [← Int32.ofNat_sub _ _ (by omega)]
      congr 1
      omega

theorem Inv.fail (h : s.Inv) (ht : t < s.threads) (hs : s.fail t = some s') : s'.Inv := by
  rw [PoolSystem.fail] at hs
  split at hs <;> try cases hs
  next hcall =>
  exact h.moves ht hcall rfl rfl rfl (fun M hM => hM) (fun n hn => hn) rfl

theorem Inv.connect (h : s.Inv) (ht : t < s.threads) {ptr : Nat} {now : UInt64}
    (hs : s.connect t ptr now = some s') : s'.Inv := by
  rw [PoolSystem.connect] at hs
  split at hs <;> try cases hs
  next hcall =>
  split at hs <;> cases hs
  next hnone =>
  refine h.moves ht hcall rfl rfl rfl (fun M hM => ?_) (fun n hn => hn) rfl
  change Owned _ s.heap (s.shared + 0 + M) at hM
  rw [add_zero] at hM
  change Owned _ (Function.update s.heap ptr _) (s.shared + tagged .ready [ptr] + M)
  rw [add_tagged_singleton]
  exact hM.alloc hnone ⟨rfl, Or.inl rfl⟩

theorem Inv.count (h : s.Inv) (ht : t < s.threads) (hs : s.count t = some s') : s'.Inv := by
  rw [PoolSystem.count] at hs
  split at hs <;> try cases hs
  next ptr hcall =>
  refine h.moves ht hcall rfl rfl rfl (fun M hM => hM) (fun n hn => ?_) rfl
  change s.pool.total + Int32.ofNat 1 = _
  rw [hn, ← Int32.ofNat_add]
  congr 1
  simp only [setCall, PoolCall.counted]
  omega

theorem Inv.handOut (h : s.Inv) (ht : t < s.threads) (hs : s.handOut t = some s') : s'.Inv := by
  rw [PoolSystem.handOut] at hs
  split at hs <;> try cases hs
  next ptr hcall =>
  obtain ⟨b, hb, hrequest, huses⟩ := h.get ht hcall (a := ptr) (by simp [PoolCall.ptrs])
  rw [hb]
  refine h.moves ht hcall rfl rfl rfl (fun M hM => ?_) (fun n hn => ?_) rfl
  · change Owned _ s.heap (s.shared + tagged .ready [ptr] + M) at hM
    rw [add_tagged_singleton] at hM
    have hlent : PoolTag.lent.Fits s.pool.maxRequest { b with uses := b.uses + 1 } := by
      refine ⟨congrArg (· + 1) hrequest, ?_⟩
      change b.uses + 1 ≤ _
      omega
    have hwrite := hM.write hlent
    have heq : tagged .ready s.pool.conns + tagged .lent (ptr :: s.leases) + 0 + M =
        (ptr, .lent) ::ₘ (s.shared + M) := by
      rw [tagged_cons, Multiset.add_cons, add_zero, Multiset.cons_add]
      rfl
    exact heq ▸ hwrite
  · refine hn.trans ?_
    simp only [PoolCall.counted, setCall, List.length_cons]
    congr 1

theorem Inv.releasePtr (h : s.Inv) (ht : t < s.threads) {ptr : Nat}
    (hs : s.releasePtr t ptr = some s') : s'.Inv := by
  rw [PoolSystem.releasePtr] at hs
  split at hs <;> try cases hs
  next hcall =>
  split at hs <;> cases hs
  next hmem =>
  refine h.moves ht hcall rfl rfl rfl (fun M hM => ?_) (fun n hn => ?_) rfl
  · have heq : s.shared + 0 = tagged .ready s.pool.conns + tagged .lent (s.leases.erase ptr) +
        tagged .lent [ptr] := by
      rw [shared, tagged_perm (List.perm_cons_erase hmem), tagged_cons, tagged_cons, tagged_nil,
        add_zero, Multiset.add_cons, Multiset.add_cons, add_zero]
    change Owned _ s.heap (s.shared + 0 + M) at hM
    rw [heq] at hM
    exact hM
  · refine hn.trans ?_
    have hlength := List.length_erase_of_mem hmem
    have hpos := List.length_pos_of_mem hmem
    simp only [PoolCall.counted, setCall]
    congr 1
    omega

theorem Inv.addRequest (h : s.Inv) (ht : t < s.threads) (hs : s.addRequest t = some s') :
    s'.Inv := by
  rw [PoolSystem.addRequest] at hs
  split at hs <;> try cases hs
  next ptr hcall =>
  obtain ⟨b, hb, hrequest, huses⟩ := h.get ht hcall (a := ptr) (by simp [PoolCall.ptrs])
  rw [deref_some hb]
  refine h.moves ht hcall rfl rfl rfl (fun M hM => ?_) (fun n hn => hn) rfl
  change Owned _ s.heap (s.shared + tagged .lent [ptr] + M) at hM
  change Owned _ (Function.update s.heap ptr _) (s.shared + tagged .back [ptr] + M)
  rw [add_tagged_singleton] at hM ⊢
  exact hM.write ⟨hrequest, huses⟩

theorem Inv.decideRelease (h : s.Inv) (ht : t < s.threads) {now : UInt64}
    (hs : s.decideRelease t now = some s') : s'.Inv := by
  rw [PoolSystem.decideRelease] at hs
  split at hs <;> try cases hs
  next ptr hcall =>
  obtain ⟨b, hb, hrequest, huses⟩ := h.get ht hcall (a := ptr) (by simp [PoolCall.ptrs])
  rw [deref_some hb]
  refine h.moves ht hcall rfl rfl rfl (fun M hM => ?_) (fun n hn => ?_) rfl
  · change Owned _ s.heap (s.shared + tagged .back [ptr] + M) at hM
    rw [add_tagged_singleton] at hM
    cases hdestroys : s.pool.destroys b now with
    | true =>
      change Owned _ s.heap (s.shared + tagged .done [ptr] + M)
      rw [add_tagged_singleton]
      exact hM.retag fun c _ hc => hc.2
    | false =>
      change Owned _ s.heap (s.shared + tagged .ready [ptr] + M)
      rw [add_tagged_singleton]
      refine hM.retag fun c hc _ => ?_
      rw [hb] at hc
      cases hc
      simp only [HttpConnectionPool.destroys, Bool.or_eq_false_iff, decide_eq_false_iff_not]
        at hdestroys
      exact ⟨hrequest, by omega⟩
  · refine hn.trans ?_
    cases hdestroys : s.pool.destroys b now <;> simp [setCall, PoolCall.counted]

theorem Inv.destroy (h : s.Inv) (ht : t < s.threads) (hs : s.destroy t = some s') : s'.Inv := by
  rw [PoolSystem.destroy] at hs
  split at hs <;> try cases hs
  next ptr hcall =>
  obtain ⟨b, hb, -⟩ := h.get ht hcall (a := ptr) (by simp [PoolCall.ptrs])
  rw [deref_some hb]
  refine h.moves ht hcall rfl rfl rfl (fun M hM => ?_) (fun n hn => hn) rfl
  change Owned _ s.heap (s.shared + tagged .done [ptr] + M) at hM
  rw [add_tagged_singleton] at hM
  change Owned _ (Function.update s.heap ptr none) (s.shared + 0 + M)
  rw [add_zero]
  exact hM.free

theorem Inv.uncount (h : s.Inv) (ht : t < s.threads) (hs : s.uncount t = some s') : s'.Inv := by
  rw [PoolSystem.uncount] at hs
  split at hs <;> try cases hs
  next hcall =>
  refine h.moves ht hcall rfl rfl rfl (fun M hM => hM) (fun n hn => ?_) rfl
  change s.pool.total - Int32.ofNat 1 = _
  rw [hn]
  simp only [setCall, PoolCall.counted]
  rw [← Int32.ofNat_sub _ _ (by omega)]
  congr 1
  omega

theorem Inv.push (h : s.Inv) (ht : t < s.threads) (hs : s.push t = some s') : s'.Inv := by
  rw [PoolSystem.push] at hs
  split at hs <;> try cases hs
  next ptr hcall =>
  refine h.moves ht hcall rfl rfl rfl (fun M hM => ?_) (fun n hn => ?_) rfl
  · have heq : s.shared + tagged .ready [ptr] = tagged .ready (s.pool.conns ++ [ptr]) +
        tagged .lent s.leases + 0 := by
      rw [shared, tagged_append]
      abel
    change Owned _ s.heap (s.shared + tagged .ready [ptr] + M) at hM
    rw [heq] at hM
    exact hM
  · refine hn.trans ?_
    simp only [PoolCall.counted, setCall, List.length_append, List.length_cons, List.length_nil]
    congr 1
    omega

theorem step_lt {a : PoolAction} (hs : s.step a = some s') (ha : a.thread = some t) :
    t < s.threads := by
  by_contra hle
  unfold PoolSystem.step at hs
  rw [ha, Option.any_some, if_pos (by simpa using hle)] at hs
  cases hs

theorem Inv.step {a : PoolAction} (h : s.Inv) (hs : s.step a = some s') : s'.Inv := by
  have ht : ∀ t, a.thread = some t → t < s.threads := fun _ => step_lt hs
  unfold PoolSystem.step at hs
  split at hs
  · cases hs
  cases a with
  | disconnect ptr => exact h.disconnect hs
  | getConnection t now => exact h.getConnection (ht t rfl) hs
  | deleteInvalid t => exact h.deleteInvalid (ht t rfl) hs
  | subtract t => exact h.subtract (ht t rfl) hs
  | fail t => exact h.fail (ht t rfl) hs
  | connect t ptr now => exact h.connect (ht t rfl) hs
  | count t => exact h.count (ht t rfl) hs
  | handOut t => exact h.handOut (ht t rfl) hs
  | releasePtr t ptr => exact h.releasePtr (ht t rfl) hs
  | addRequest t => exact h.addRequest (ht t rfl) hs
  | decideRelease t now => exact h.decideRelease (ht t rfl) hs
  | destroy t => exact h.destroy (ht t rfl) hs
  | uncount t => exact h.uncount (ht t rfl) hs
  | push t => exact h.push (ht t rfl) hs

theorem inv_start (maxAliveTime maxRequest : UInt32) (threads : Nat) :
    (start maxAliveTime maxRequest threads).Inv := by
  have hheld : (start maxAliveTime maxRequest threads).held = 0 := by
    simp [start, held, shared, PoolCall.ptrs]
  have hcounted : (start maxAliveTime maxRequest threads).counted = 0 := by
    simp [start, counted, PoolCall.counted]
  refine ⟨?_, ?_, rfl⟩
  · rw [hheld]
    exact .nothing
  · rw [hcounted]
    rfl

theorem inv_reach {guard : PoolSystem → PoolAction → Prop} (h : poolMachine.Reach guard s) :
    s.Inv := by
  refine h.invariant (P := Inv) ?_ fun s a t hs _ hstep => hs.step hstep
  rintro s ⟨maxAliveTime, maxRequest, threads, rfl⟩
  exact inv_start maxAliveTime maxRequest threads

/-! ## Ownership -/

/-- How often an address is in the pool, with the holders and in the calls. -/
def places (s : PoolSystem) (a : Nat) : Nat :=
  s.pool.conns.count a + s.leases.count a +
    ∑ v ∈ Finset.range s.threads, (s.calls v).ptrs.count a

/-- Every live connection is in one place and no other address is in any, no object is used after
    it is deleted, none is handed out too often, and between calls `m_total` is the number of
    connections. -/
structure Accounted (s : PoolSystem) : Prop where
  places : ∀ a, s.places a = if s.heap a = none then 0 else 1
  sound : s.useAfterFree = false
  uses : ∀ a c, s.heap a = some c → c.uses ≤ max 1 s.pool.maxRequest.toNat
  total : (∀ t < s.threads, s.calls t = .idle) →
    s.pool.total = Int32.ofNat (s.pool.conns.length + s.leases.length)

theorem count_tagged (k : PoolTag) (l : List Nat) (a : Nat) :
    ((tagged k l).map Prod.fst).count a = l.count a := by
  rw [tagged, Multiset.map_coe, Multiset.coe_count, List.map_map]
  exact congrArg (List.count a) (List.map_id' l)

theorem count_held (a : Nat) : (s.held.map Prod.fst).count a = s.places a := by
  rw [held, shared, places, Multiset.map_add, Multiset.map_add, Multiset.count_add,
    Multiset.count_add, count_tagged, count_tagged]
  congr 1
  induction s.threads with
  | zero => rfl
  | succ n ih =>
    rw [Finset.sum_range_succ, Finset.sum_range_succ, Multiset.map_add, Multiset.count_add, ih,
      count_tagged]

theorem accounted (h : poolMachine.Reachable s) : s.Accounted := by
  have hinv := inv_reach h
  refine ⟨fun a => ?_, hinv.sound, fun a c hc => ?_, fun hidle => ?_⟩
  · rw [← count_held, hinv.owned.count]
  · have hmem : a ∈ s.held.map Prod.fst := (hinv.owned.live a).mp (by simp [hc])
    obtain ⟨p, hp, rfl⟩ := Multiset.mem_map.mp hmem
    obtain ⟨d, hd, hfits⟩ := hinv.owned.fits p hp
    rw [hc] at hd
    cases hd
    exact hfits.uses_le
  · have hnone : ∑ v ∈ Finset.range s.threads, (s.calls v).counted = 0 :=
      Finset.sum_eq_zero fun v hv => by rw [hidle v (Finset.mem_range.mp hv)]; rfl
    rw [hinv.total, counted, hnone, add_zero]

/-- Two connections in use by two threads; one goes back to the pool, and is found past its time. -/
def twoConnections : List PoolAction :=
  [.getConnection 0 5, .subtract 0, .getConnection 1 5, .connect 0 7 5, .subtract 1, .count 0,
    .handOut 0, .connect 1 9 6, .releasePtr 0 7, .count 1, .addRequest 0, .decideRelease 0 2000,
    .handOut 1, .push 0, .getConnection 0 2000, .deleteInvalid 0, .subtract 0, .fail 0]

theorem accounted_twoConnections :
    ∃ s, poolMachine.run (start 1000 2 2) twoConnections = some s ∧ s.leases = [9] ∧
      s.pool.total = 1 ∧ s.Accounted :=
  ⟨_, rfl, rfl, rfl, accounted (.of_run twoConnections ⟨1000, 2, 2, rfl⟩ rfl)⟩

/-! ## Reuse -/

end PoolSystem

/-- The connection is not older than `m_maxAliveTime`. -/
def HttpConnection.Young (c : HttpConnection) (maxAliveTime : UInt32) (now : UInt64) : Prop :=
  now.toNat ≤ c.createTime.toNat + maxAliveTime.toNat

instance {c : HttpConnection} {maxAliveTime : UInt32} {now : UInt64} :
    Decidable (c.Young maxAliveTime now) :=
  inferInstanceAs (Decidable (_ ≤ _))

/-- `m_createTime + m_maxAliveTime` does not fit in 64 bits and comes out before `now`. -/
def HttpConnection.Wraps (c : HttpConnection) (maxAliveTime : UInt32) (now : UInt64) : Prop :=
  2 ^ 64 ≤ c.createTime.toNat + maxAliveTime.toNat ∧ c.deadline maxAliveTime < now

/-- A 64-bit sum is before the clock for an old connection, and where it wraps around. -/
theorem HttpConnection.deadline_lt {c : HttpConnection} {maxAliveTime : UInt32} {now : UInt64} :
    c.deadline maxAliveTime < now ↔ ¬c.Young maxAliveTime now ∨ c.Wraps maxAliveTime now := by
  have hnow : now.toNat < 2 ^ 64 := now.toNat_lt
  have hsum : (c.deadline maxAliveTime).toNat =
      (c.createTime.toNat + maxAliveTime.toNat) % 2 ^ 64 := by
    rw [deadline, UInt64.toNat_add, UInt32.toNat_toUInt64]
  rw [Young, Wraps, UInt64.lt_iff_toNat_lt, hsum]
  by_cases hfits : c.createTime.toNat + maxAliveTime.toNat < 2 ^ 64
  · rw [Nat.mod_eq_of_lt hfits]
    omega
  · omega

namespace PoolSystem

/-- `ReleasePtr` keeps exactly the connections that are connected, young and not used up, and
    `getConnection` finds one of the connected young ones, if there is any. -/
structure Policy (s : PoolSystem) : Prop where
  released : ∀ r ∈ s.releases, r.kept = true ↔ r.conn.connected = true ∧
    r.conn.Young s.pool.maxAliveTime r.now ∧ r.conn.uses < s.pool.maxRequest.toNat
  acquired : ∀ q ∈ s.acquisitions, match q.found with
    | some c => c ∈ q.conns ∧ c.connected = true ∧ c.Young s.pool.maxAliveTime q.now
    | none => ∀ c ∈ q.conns, ¬(c.connected = true ∧ c.Young s.pool.maxAliveTime q.now)

/-- The condition on a step: a released connection is disconnected or used up, or its sum wraps
    around; and no connected one in the pool has a sum that wraps around, unless the loop finds
    one. -/
def ReuseGuard (s : PoolSystem) : PoolAction → Prop
  | .decideRelease t now => ∀ ptr c, s.calls t = .deciding ptr → s.heap ptr = some c →
    c.connected = false ∨ s.pool.maxRequest.toNat ≤ c.request ∨ c.Wraps s.pool.maxAliveTime now
  | .getConnection _ now =>
    (∃ ptr ∈ s.pool.conns, ∃ c, s.heap ptr = some c ∧ c.connected = true ∧
      ¬c.deadline s.pool.maxAliveTime < now) ∨
    ∀ ptr ∈ s.pool.conns, ∀ c, s.heap ptr = some c → c.connected = true →
      ¬c.Wraps s.pool.maxAliveTime now
  | _ => True

variable {s s' : PoolSystem} {t : Nat} {now : UInt64}

theorem Policy.decideRelease (h : s.Policy) (hinv : s.Inv) (ht : t < s.threads)
    (hguard : ReuseGuard s (.decideRelease t now)) (hs : s.decideRelease t now = some s') :
    s'.Policy := by
  rw [PoolSystem.decideRelease] at hs
  split at hs <;> try cases hs
  next ptr hcall =>
  obtain ⟨c, hc, hrequest, -⟩ := hinv.get ht hcall (a := ptr) (by simp [PoolCall.ptrs])
  rw [deref_some hc]
  refine ⟨fun r hr => ?_, h.acquired⟩
  rcases List.mem_cons.mp hr with rfl | hr
  · dsimp only
    rw [HttpConnectionPool.destroys, ← hrequest]
    rcases hguard ptr c hcall hc with hdisconnected | hused | hwraps
    · simp [hdisconnected]
    · simp [setCall, hused]
    · have hyoung : c.Young s.pool.maxAliveTime now :=
        Nat.le_trans (Nat.le_of_lt now.toNat_lt) hwraps.1
      have hnot : ¬now ≤ c.deadline s.pool.maxAliveTime := UInt64.not_le.mpr hwraps.2
      simp [setCall, hyoung, hnot]
  · exact h.released r hr

theorem Policy.getConnection (h : s.Policy) (hinv : s.Inv)
    (hguard : ReuseGuard s (.getConnection t now)) (hs : s.getConnection t now = some s') :
    s'.Policy := by
  rw [PoolSystem.getConnection] at hs
  split at hs <;> try cases hs
  have hrun : ∃ r, s.pool.popConns s.heap now s.pool.conns = some r :=
    HttpConnectionPool.popConns_isSome fun a ha => hinv.live ha
  obtain ⟨⟨invalid, ptr, rest⟩, hr⟩ := hrun
  rw [hr] at hs
  cases hs
  refine ⟨h.released, fun q hq => ?_⟩
  rcases List.mem_cons.mp hq with rfl | hq
  · cases ptr with
    | some ptr =>
      obtain ⟨c, hc, hconnected, hlate⟩ := HttpConnectionPool.popConns_found hr rfl
      have hmem : ptr ∈ s.pool.conns := by
        rw [← HttpConnectionPool.popConns_append hr]
        simp
      rw [HttpConnection.deadline_lt] at hlate
      simp only [Option.bind_some, hc]
      exact ⟨List.mem_filterMap.mpr ⟨ptr, hmem, hc⟩, hconnected,
        by_contra fun hold => hlate (Or.inl hold)⟩
    | none =>
      simp only [Option.bind_none]
      rintro c hmem ⟨hconnected, hyoung⟩
      obtain ⟨ptr, hptr, hc⟩ := List.mem_filterMap.mp hmem
      have hnone := fun ptr hptr c hc hconnected =>
        HttpConnectionPool.popConns_none hr rfl (a := ptr) hptr (c := c) hc hconnected
      have hwraps := (HttpConnection.deadline_lt.mp (hnone ptr hptr c hc hconnected)).resolve_left
        (not_not.mpr hyoung)
      rcases hguard with ⟨ptr, hptr, c, hc, hconnected, hlate⟩ | hguard
      · exact hlate (hnone ptr hptr c hc hconnected)
      · exact hguard ptr hptr c hc hconnected hwraps
  · exact h.acquired q hq

/-- What the other steps leave as it is. -/
theorem step_records {a : PoolAction} (hs : s.step a = some s')
    (hget : ∀ t now, a ≠ .getConnection t now) (hdecide : ∀ t now, a ≠ .decideRelease t now) :
    s'.pool.maxAliveTime = s.pool.maxAliveTime ∧ s'.pool.maxRequest = s.pool.maxRequest ∧
      s'.releases = s.releases ∧ s'.acquisitions = s.acquisitions := by
  unfold PoolSystem.step at hs
  split at hs
  · cases hs
  cases a with
  | getConnection t now => exact absurd rfl (hget t now)
  | decideRelease t now => exact absurd rfl (hdecide t now)
  | disconnect ptr =>
    obtain ⟨c, -, rfl⟩ := Option.map_eq_some_iff.mp hs
    exact ⟨rfl, rfl, rfl, rfl⟩
  | deleteInvalid t | addRequest t | destroy t =>
    simp only [deleteInvalid, addRequest, destroy, deref] at hs
    split at hs <;> cases hs
    split <;> exact ⟨rfl, rfl, rfl, rfl⟩
  | connect t ptr now | releasePtr t ptr =>
    simp only [connect, releasePtr] at hs
    split at hs
    · split at hs <;> cases hs
      exact ⟨rfl, rfl, rfl, rfl⟩
    · cases hs
  | subtract t | fail t | count t | handOut t | uncount t | push t =>
    simp only [subtract, fail, count, handOut, uncount, push] at hs
    split at hs <;> cases hs
    exact ⟨rfl, rfl, rfl, rfl⟩

theorem Policy.step {a : PoolAction} (h : s.Policy) (hinv : s.Inv) (hguard : ReuseGuard s a)
    (hs : s.step a = some s') : s'.Policy := by
  by_cases hget : ∃ t now, a = .getConnection t now
  · obtain ⟨t, now, rfl⟩ := hget
    have ht := step_lt hs rfl
    unfold PoolSystem.step at hs
    rw [if_neg (by simpa [PoolAction.thread] using ht)] at hs
    exact h.getConnection hinv hguard hs
  by_cases hdecide : ∃ t now, a = .decideRelease t now
  · obtain ⟨t, now, rfl⟩ := hdecide
    have ht := step_lt hs rfl
    unfold PoolSystem.step at hs
    rw [if_neg (by simpa [PoolAction.thread] using ht)] at hs
    exact h.decideRelease hinv ht hguard hs
  obtain ⟨halive, hmax, hreleases, hacquisitions⟩ := step_records hs
    (fun t now heq => hget ⟨t, now, heq⟩) (fun t now heq => hdecide ⟨t, now, heq⟩)
  refine ⟨fun r hr => ?_, fun q hq => ?_⟩
  · rw [halive, hmax]
    exact h.released r (hreleases ▸ hr)
  · rw [halive]
    exact h.acquired q (hacquisitions ▸ hq)

/-- In every run whose steps meet the guard, what is released and what is handed out follows the
    policy. -/
theorem policy_kept (h : poolMachine.Reach ReuseGuard s) : s.Policy := by
  have hboth : s.Inv ∧ s.Policy := by
    refine h.invariant (P := fun s => s.Inv ∧ s.Policy) ?_ ?_
    · rintro s ⟨maxAliveTime, maxRequest, threads, rfl⟩
      exact ⟨inv_start .., fun r hr => (nomatch hr), fun q hq => (nomatch hq)⟩
    · exact fun s a t hs hg hstep => ⟨hs.1.step hstep, hs.2.step hs.1 hg hstep⟩
  exact hboth.2

/-- A connection is opened, used, and released when it is disconnected. -/
def disconnected : List PoolAction :=
  [.getConnection 0 5, .subtract 0, .connect 0 7 5, .count 0, .handOut 0, .disconnect 7,
    .releasePtr 0 7, .addRequest 0, .decideRelease 0 8, .destroy 0, .uncount 0]

theorem policy_kept_disconnected :
    ∃ s, poolMachine.run (start 1000 2 1) disconnected = some s ∧ s.releases.length = 1 ∧
      s.Policy := by
  refine ⟨_, rfl, rfl, policy_kept (.of_run disconnected (.init ⟨1000, 2, 1, rfl⟩) ?_ rfl)⟩
  refine .cons (Or.inr fun _ hptr => (nomatch hptr)) rfl <| .cons trivial rfl <|
    .cons trivial rfl <| .cons trivial rfl <| .cons trivial rfl <| .cons trivial rfl <|
    .cons trivial rfl <| .cons trivial rfl <| .cons (fun ptr c hcall hc => ?_) rfl <|
    .cons trivial rfl <| .cons trivial rfl trivial
  cases hcall
  cases hc
  exact Or.inl rfl

/-- A healthy connection is released within its time. -/
def releasedYoung : List PoolAction :=
  [.getConnection 0 5, .subtract 0, .connect 0 7 5, .count 0, .handOut 0, .releasePtr 0 7,
    .addRequest 0, .decideRelease 0 8, .destroy 0, .uncount 0]

theorem young_destroyed : ¬∀ s, poolMachine.Reachable s → s.Policy := by
  intro h
  have hpolicy := h _ (.of_run releasedYoung (s := start 1000 2 1) ⟨1000, 2, 1, rfl⟩ rfl)
  have hkept := (hpolicy.released _ (List.mem_singleton_self _)).mpr ⟨rfl, by decide, by decide⟩
  cases hkept

end PoolSystem

end CppServerFramework.HTTP

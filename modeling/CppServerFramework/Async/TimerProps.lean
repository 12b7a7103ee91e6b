import CppServerFramework.Async.Timer

/-!
# The firing discipline of the timers

`m_timers` is sorted by the due times the timers have at that moment, although the operations
and the collector rewrite them, and a timer outside of it has no function left.  From this
follows what `listExpiredCb` collects, over every run.
-/

namespace CppServerFramework.Async

namespace TimerManager

variable {m m' : TimerManager} {i j : Nat} {t : Timer} {now : UInt64} {addr : Nat}

@[simp] theorem timers_setTimer_self : (m.setTimer i t).timers i = t := Function.update_self ..

theorem timers_setTimer_of_ne (h : j ≠ i) : (m.setTimer i t).timers j = m.timers j :=
  Function.update_of_ne h ..

@[simp] theorem set_setTimer : (m.setTimer i t).set = m.set := rfl

@[simp] theorem count_setTimer : (m.setTimer i t).count = m.count := rfl

@[simp] theorem timers_insert : (m.insert i).timers = m.timers := rfl

@[simp] theorem count_insert : (m.insert i).count = m.count := rfl

@[simp] theorem timers_erase : (m.erase i).timers = m.timers := rfl

@[simp] theorem count_erase : (m.erase i).count = m.count := rfl

/-! ### The comparator -/

theorem less_iff : m.less i j = true ↔ (m.timers i).next < (m.timers j).next ∨
    (m.timers i).next = (m.timers j).next ∧ (m.timers i).addr < (m.timers j).addr := by
  simp only [less, Timer.comparator]
  split
  · simp_all
  · split
    · rename_i hij hji
      have hne : (m.timers i).next ≠ (m.timers j).next := by grind
      simp_all
    · have heq : (m.timers i).next = (m.timers j).next := by grind
      simp [heq]

theorem less_strictOrder (m : TimerManager) : OrderedSet.StrictOrder m.less where
  irrefl i := by
    apply Bool.eq_false_iff.mpr
    rw [Ne, less_iff]
    grind
  trans i j k hij hjk := by
    rw [less_iff] at hij hjk ⊢
    grind

theorem comparable_of_addr (h : (m.timers i).addr ≠ (m.timers j).addr) :
    m.less i j = true ∨ m.less j i = true := by
  rw [less_iff, less_iff]
  grind

/-- The due times do not decrease along a sorted set. -/
theorem next_le_of_less (h : m.less i j = true) : (m.timers i).next ≤ (m.timers j).next := by
  rw [less_iff] at h
  grind

theorem less_congr (h : ∀ j ∈ m.set, (m'.timers j).next = (m.timers j).next ∧
      (m'.timers j).addr = (m.timers j).addr)
    (hs : OrderedSet.Sorted m.less m.set) : OrderedSet.Sorted m'.less m.set := by
  apply hs.congr
  intro i hi j hj hij
  rw [less_iff] at hij ⊢
  rw [(h i hi).1, (h i hi).2, (h j hj).1, (h j hj).2]
  exact hij

/-! ### The ordered set -/

/-- `m_timers` is sorted and its timers are different objects. -/
structure Ordered (m : TimerManager) : Prop where
  sorted : OrderedSet.Sorted m.less m.set
  addr : ∀ i ∈ m.set, ∀ j ∈ m.set, (m.timers i).addr = (m.timers j).addr → i = j

namespace Ordered

theorem nodup (h : m.Ordered) : m.set.Nodup := h.sorted.nodup m.less_strictOrder

theorem find (h : m.Ordered) (hi : i ∈ m.set) : m.find i = some i :=
  OrderedSet.find_of_mem m.less_strictOrder h.sorted hi

/-- A change of the timers that keeps the keys of those in the set. -/
theorem congr (h : m.Ordered) (hset : m'.set = m.set)
    (hkeys : ∀ j ∈ m.set, (m'.timers j).next = (m.timers j).next ∧
      (m'.timers j).addr = (m.timers j).addr) : m'.Ordered where
  sorted := hset ▸ less_congr hkeys h.sorted
  addr i hi j hj heq := by
    rw [hset] at hi hj
    rw [(hkeys i hi).2, (hkeys j hj).2] at heq
    exact h.addr i hi j hj heq

theorem setTimer_of_notMem (h : m.Ordered) (hi : i ∉ m.set) : (m.setTimer i t).Ordered := by
  refine h.congr set_setTimer fun j hj => ?_
  have hne : j ≠ i := fun heq => hi (heq ▸ hj)
  rw [timers_setTimer_of_ne hne]
  exact ⟨rfl, rfl⟩

theorem mem_erase (h : m.Ordered) (hi : i ∈ m.set) : j ∈ (m.erase i).set ↔ j ∈ m.set ∧ j ≠ i :=
  OrderedSet.mem_erase_of_mem m.less_strictOrder h.sorted hi

theorem erase (h : m.Ordered) (i : Nat) : (m.erase i).Ordered where
  sorted := h.sorted.erase i
  addr j hj k hk heq :=
    h.addr j (OrderedSet.mem_of_mem_erase hj) k (OrderedSet.mem_of_mem_erase hk) heq

/-- A timer whose address no timer of the set has goes in. -/
theorem mem_insert (hfresh : ∀ j ∈ m.set, (m.timers j).addr ≠ (m.timers i).addr) :
    j ∈ (m.insert i).set ↔ j = i ∨ j ∈ m.set :=
  OrderedSet.mem_insert_of_comparable fun k hk => comparable_of_addr (hfresh k hk).symm

theorem insert (h : m.Ordered)
    (hfresh : ∀ j ∈ m.set, (m.timers j).addr ≠ (m.timers i).addr) : (m.insert i).Ordered where
  sorted := h.sorted.insert m.less_strictOrder
  addr j hj k hk heq := by
    rcases (mem_insert hfresh).mp hj with hji | hjset <;>
      rcases (mem_insert hfresh).mp hk with hki | hkset
    · rw [hji, hki]
    · exact absurd (hji ▸ heq.symm) (hfresh k hkset)
    · exact absurd (hki ▸ heq) (hfresh j hjset)
    · exact h.addr j hjset k hkset heq

end Ordered

/-- `Ordered`, and the timers outside of the set have no function: none of them comes back. -/
structure Inv (m : TimerManager) : Prop extends m.Ordered where
  bound : ∀ i ∈ m.set, i < m.count
  active : ∀ i < m.count, (m.timers i).cb ≠ none → i ∈ m.set

/-- What every operation keeps: a timer made earlier is as recurring as it was, and is in the
    set only if it was before. -/
structure Extends (m m' : TimerManager) : Prop where
  count : m.count ≤ m'.count
  recurring : ∀ i < m.count, (m'.timers i).recurring = (m.timers i).recurring
  set : ∀ i < m.count, i ∈ m'.set → i ∈ m.set

theorem Extends.refl (m : TimerManager) : m.Extends m := ⟨le_rfl, fun _ _ => rfl, fun _ _ h => h⟩

/-! ### The operations -/

/-- A timer gets a new due time: it is erased, changed and inserted again. -/
theorem Inv.rekey (h : m.Inv) (hi : i ∈ m.set) (haddr : t.addr = (m.timers i).addr)
    (hrec : t.recurring = (m.timers i).recurring) :
    (((m.erase i).setTimer i t).insert i).Inv ∧
      m.Extends (((m.erase i).setTimer i t).insert i) := by
  have hnot : i ∉ (m.erase i).set := fun hmem => ((h.mem_erase hi).mp hmem).2 rfl
  have hfresh : ∀ j ∈ ((m.erase i).setTimer i t).set,
      (((m.erase i).setTimer i t).timers j).addr ≠
        (((m.erase i).setTimer i t).timers i).addr := by
    intro j hj
    obtain ⟨hjset, hne⟩ := (h.mem_erase hi).mp hj
    rw [timers_setTimer_of_ne hne, timers_setTimer_self, haddr]
    exact fun heq => hne (h.addr j hjset i hi heq)
  have hmem : ∀ j, j ∈ (((m.erase i).setTimer i t).insert i).set ↔ j ∈ m.set := by
    intro j
    rw [Ordered.mem_insert hfresh, set_setTimer, h.mem_erase hi]
    by_cases hj : j = i <;> simp [hj, hi]
  refine ⟨{ ((h.erase i).setTimer_of_notMem hnot).insert hfresh with
    bound := ?_, active := ?_ }, ⟨le_rfl, ?_, fun j _ hj => (hmem j).mp hj⟩⟩
  · intro j hj
    exact h.bound j ((hmem j).mp hj)
  · intro j hj hcb
    rw [hmem]
    by_cases hji : j = i
    · exact hji ▸ hi
    · rw [timers_insert, timers_setTimer_of_ne hji] at hcb
      exact h.active j hj hcb
  · intro j _
    by_cases hji : j = i
    · subst hji
      rw [timers_insert, timers_setTimer_self, hrec]
    · rw [timers_insert, timers_setTimer_of_ne hji, timers_erase]

theorem Inv.tickle (h : m.Inv) (b : Bool) : Inv { m with tickled := b } := { h with }

theorem Extends.tickle (h : m.Extends m') (b : Bool) : m.Extends { m' with tickled := b } :=
  { h with }

theorem insertTimer_fst : ∃ b, (m.insertTimer i).1 = { m.insert i with tickled := b } :=
  ⟨_, rfl⟩

theorem Inv.addTimer (h : m.Inv) {ms : UInt64} {cb : Option TimerCallback} {recurring : Bool}
    (hfresh : m.Fresh addr) :
    (m.addTimer ms cb recurring now addr).1.Inv ∧
      m.Extends (m.addTimer ms cb recurring now addr).1 := by
  obtain ⟨b, hb⟩ := insertTimer_fst (i := m.count)
    (m := { m.setTimer m.count ⟨recurring, ms, now + ms, cb, addr⟩ with count := m.count + 1 })
  rw [TimerManager.addTimer, hb]
  have hnot : m.count ∉ m.set := fun hmem => absurd (h.bound _ hmem) (by omega)
  have hne : ∀ j ∈ m.set, j ≠ m.count := fun j hj heq => hnot (heq ▸ hj)
  set m₀ : TimerManager :=
    { m.setTimer m.count ⟨recurring, ms, now + ms, cb, addr⟩ with count := m.count + 1 }
    with hm₀
  have hfresh₀ : ∀ j ∈ m₀.set, (m₀.timers j).addr ≠ (m₀.timers m.count).addr := by
    intro j hj
    have hself : m₀.timers m.count = ⟨recurring, ms, now + ms, cb, addr⟩ := timers_setTimer_self
    have hother : m₀.timers j = m.timers j := timers_setTimer_of_ne (hne j hj)
    rw [hself, hother]
    exact hfresh j hj
  have hord₀ : m₀.Ordered := (h.setTimer_of_notMem hnot).congr rfl fun _ _ => ⟨rfl, rfl⟩
  refine ⟨Inv.tickle { hord₀.insert hfresh₀ with bound := ?_, active := ?_ } b,
    Extends.tickle ⟨by simp [hm₀], ?_, ?_⟩ b⟩
  · intro j hj
    rcases (Ordered.mem_insert hfresh₀).mp hj with rfl | hj
    · exact Nat.lt_succ_self _
    · exact Nat.lt_succ_of_lt (h.bound j hj)
  · intro j hj hcb
    rw [Ordered.mem_insert hfresh₀]
    by_cases hji : j = m.count
    · exact Or.inl hji
    · have hother : m₀.timers j = m.timers j := timers_setTimer_of_ne hji
      rw [timers_insert, hother] at hcb
      have hlt : j < m.count + 1 := hj
      exact Or.inr (h.active j (by omega) hcb)
  · intro j hj
    have hother : m₀.timers j = m.timers j := timers_setTimer_of_ne (by omega)
    rw [timers_insert, hother]
  · intro j hj hmem
    rcases (Ordered.mem_insert hfresh₀).mp hmem with rfl | hmem
    · omega
    · exact hmem

/-- A `cancel` finds the timer it erases; after it has answered true the timer is not in the
    set. -/
theorem Inv.cancel (h : m.Inv) (hi : i < m.count) :
    ∃ m' ok, m.cancel i = some (m', ok) ∧ m'.Inv ∧ m.Extends m' ∧
      (ok = true → i ∉ m'.set) := by
  cases hcb : (m.timers i).cb with
  | none => exact ⟨m, false, by simp [TimerManager.cancel, hcb], h, .refl m, by simp⟩
  | some cb =>
    have hmem := h.active i hi (by simp [hcb])
    set m₀ := m.setTimer i { m.timers i with cb := none } with hm₀
    have hkeys : ∀ j ∈ m.set, (m₀.timers j).next = (m.timers j).next ∧
        (m₀.timers j).addr = (m.timers j).addr := by
      intro j _
      by_cases hji : j = i
      · subst hji
        simp [hm₀]
      · rw [hm₀, timers_setTimer_of_ne hji]
        exact ⟨rfl, rfl⟩
    have hord : m₀.Ordered := h.congr set_setTimer hkeys
    have hset : ∀ j, j ∈ (m₀.erase i).set ↔ j ∈ m.set ∧ j ≠ i := fun j => hord.mem_erase hmem
    refine ⟨m₀.erase i, true, ?_, { hord.erase i with bound := ?_, active := ?_ },
      ⟨le_rfl, ?_, fun j _ hj => ((hset j).mp hj).1⟩, fun _ hj => ((hset i).mp hj).2 rfl⟩
    · simp only [TimerManager.cancel, hcb]
      rw [← hm₀, hord.find hmem]
      rfl
    · intro j hj
      exact h.bound j ((hset j).mp hj).1
    · intro j hj hjcb
      rw [hset]
      by_cases hji : j = i
      · subst hji
        simp [hm₀] at hjcb
      · rw [timers_erase, hm₀, timers_setTimer_of_ne hji] at hjcb
        exact ⟨h.active j hj hjcb, hji⟩
    · intro j _
      rw [timers_erase]
      by_cases hji : j = i
      · subst hji
        simp [hm₀]
      · rw [hm₀, timers_setTimer_of_ne hji]

theorem Inv.refresh (h : m.Inv) (hi : i < m.count) (now : UInt64) :
    (m.refresh i now).1.Inv ∧ m.Extends (m.refresh i now).1 := by
  rw [TimerManager.refresh]
  split
  · exact ⟨h, .refl m⟩
  · rename_i hcb
    have hmem := h.active i hi hcb
    rw [h.find hmem]
    exact h.rekey hmem rfl rfl

theorem Inv.reset (h : m.Inv) (hi : i < m.count) (ms : UInt64) (fromNow : Bool) (now : UInt64) :
    (m.reset i ms fromNow now).1.Inv ∧ m.Extends (m.reset i ms fromNow now).1 := by
  rw [TimerManager.reset]
  split
  · exact ⟨h, .refl m⟩
  · split
    · exact ⟨h, .refl m⟩
    · rename_i hcb
      have hmem := h.active i hi hcb
      rw [h.find hmem]
      obtain ⟨hinv, hext⟩ := h.rekey (i := i) (t := { m.timers i with
        ms, next := (if fromNow then now else (m.timers i).next - (m.timers i).ms) + ms })
        hmem rfl rfl
      exact ⟨hinv.tickle _, hext.tickle _⟩

theorem getNextTimer_fst (m : TimerManager) (now : UInt64) :
    (m.getNextTimer now).1 = { m with tickled := false } := by
  rw [getNextTimer]
  split
  · rfl
  · split <;> rfl

theorem Inv.getNextTimer (h : m.Inv) (now : UInt64) :
    (m.getNextTimer now).1.Inv ∧ m.Extends (m.getNextTimer now).1 := by
  rw [getNextTimer_fst]
  exact ⟨h.tickle false, (Extends.refl m).tickle false⟩

/-! ### The collector -/

theorem expired_prefix (m : TimerManager) (now : UInt64) (addr : Nat) :
    m.expired now addr <+: m.set := by
  rw [expired]
  split
  · exact List.prefix_rfl
  · split
    · exact List.nil_prefix
    · exact List.takeWhile_prefix _

/-- A call that finds no rollover collects only what is due. -/
theorem next_le_of_mem_expired (hroll : m.detectClockRollover now = false)
    (hi : i ∈ m.expired now addr) : (m.timers i).next ≤ now := by
  rw [expired, if_neg (by simp [hroll])] at hi
  split at hi
  · cases hi
  · have hlt := OrderedSet.not_after_of_mem_upTo hi
    simp only [Timer.comparator] at hlt
    split at hlt
    · cases hlt
    · grind

/-- What the collector makes of a timer. -/
def collectedTimer (now : UInt64) (t : Timer) : Timer :=
  if t.recurring then { t with next := now + t.ms } else { t with cb := none }

@[simp] theorem addr_collectedTimer : (collectedTimer now t).addr = t.addr := by
  rw [collectedTimer]
  split <;> rfl

@[simp] theorem recurring_collectedTimer : (collectedTimer now t).recurring = t.recurring := by
  rw [collectedTimer]
  split <;> rfl

/-- The timers `is` have been taken from the set: they and those in it are different objects. -/
structure Taken (m : TimerManager) (is : List Nat) : Prop extends m.Ordered where
  distinct : is.Nodup
  taken : ∀ i ∈ is, i ∉ m.set
  away : ∀ i ∈ is, ∀ j, j ∈ m.set ∨ j ∈ is → (m.timers j).addr = (m.timers i).addr → j = i

/-- What the loop over the timers `is` leaves. -/
structure Collected (m : TimerManager) (now : UInt64) (is : List Nat) (m' : TimerManager) :
    Prop where
  ordered : m'.Ordered
  count : m'.count = m.count
  previous : m'.previous = m.previous
  timers : ∀ j, m'.timers j = if j ∈ is then collectedTimer now (m.timers j) else m.timers j
  set : ∀ j, j ∈ m'.set ↔ j ∈ m.set ∨ j ∈ is ∧ (m.timers j).recurring = true

theorem Taken.collectOne {is : List Nat} (h : m.Taken (i :: is)) (now : UInt64)
    (cbs : List (Option TimerCallback)) :
    m.Collected now [i] (collectOne now (m, cbs) i).1 := by
  have hnot := h.taken i (by simp)
  have hord : (m.setTimer i (collectedTimer now (m.timers i))).Ordered :=
    h.setTimer_of_notMem hnot
  have htimers : ∀ j, (m.setTimer i (collectedTimer now (m.timers i))).timers j =
      if j ∈ [i] then collectedTimer now (m.timers j) else m.timers j := by
    intro j
    by_cases hj : j = i
    · subst hj
      simp
    · simp [hj, timers_setTimer_of_ne hj]
  have hfresh : ∀ j ∈ (m.setTimer i (collectedTimer now (m.timers i))).set,
      ((m.setTimer i (collectedTimer now (m.timers i))).timers j).addr ≠
        ((m.setTimer i (collectedTimer now (m.timers i))).timers i).addr := by
    intro j hj heq
    have hne : j ≠ i := fun heq => hnot (heq ▸ hj)
    rw [timers_setTimer_of_ne hne, timers_setTimer_self, addr_collectedTimer] at heq
    exact hne (h.away i (by simp) j (Or.inl hj) heq)
  cases hrec : (m.timers i).recurring with
  | false =>
    have hone : (TimerManager.collectOne now (m, cbs) i).1 =
        m.setTimer i (collectedTimer now (m.timers i)) := by
      simp [TimerManager.collectOne, collectedTimer, hrec]
    rw [hone]
    refine ⟨hord, rfl, rfl, htimers, fun j => ?_⟩
    rw [set_setTimer]
    grind
  | true =>
    have hone : (TimerManager.collectOne now (m, cbs) i).1 =
        (m.setTimer i (collectedTimer now (m.timers i))).insert i := by
      simp [TimerManager.collectOne, collectedTimer, hrec]
    rw [hone]
    refine ⟨hord.insert hfresh, rfl, rfl, htimers, fun j => ?_⟩
    rw [Ordered.mem_insert hfresh, set_setTimer]
    grind

theorem Taken.tail {is : List Nat} (h : m.Taken (i :: is)) (hc : m.Collected now [i] m') :
    m'.Taken is := by
  obtain ⟨hi, hnodup⟩ := List.nodup_cons.mp h.distinct
  have htimers : ∀ j, (m'.timers j).addr = (m.timers j).addr := by
    intro j
    rw [hc.timers]
    split
    · exact addr_collectedTimer
    · rfl
  have hset : ∀ j ∈ m'.set, j ∈ m.set ∨ j = i := by
    intro j hj
    rcases (hc.set j).mp hj with hj | ⟨hj, _⟩
    · exact Or.inl hj
    · exact Or.inr (List.mem_singleton.mp hj)
  refine { hc.ordered with distinct := hnodup, taken := ?_, away := ?_ }
  · intro j hj hmem
    rcases hset j hmem with hmem | rfl
    · exact h.taken j (List.mem_cons_of_mem _ hj) hmem
    · exact hi hj
  · intro j hj k hk heq
    rw [htimers, htimers] at heq
    apply h.away j (List.mem_cons_of_mem _ hj) k _ heq
    rcases hk with hk | hk
    · rcases hset k hk with hk | rfl
      · exact Or.inl hk
      · exact Or.inr (by simp)
    · exact Or.inr (List.mem_cons_of_mem _ hk)

/-- The whole loop, one timer after the other. -/
theorem Taken.collect {is : List Nat} (h : m.Taken is) (now : UInt64)
    (cbs : List (Option TimerCallback)) :
    m.Collected now is (is.foldl (TimerManager.collectOne now) (m, cbs)).1 ∧
      (is.foldl (TimerManager.collectOne now) (m, cbs)).2 =
        cbs ++ is.map fun i => (m.timers i).cb := by
  induction is generalizing m cbs with
  | nil => exact ⟨⟨h.toOrdered, rfl, rfl, by simp, by simp⟩, by simp⟩
  | cons i is ih =>
    have hone := h.collectOne now cbs
    obtain ⟨hrest, hcbs⟩ := ih (h.tail hone) (TimerManager.collectOne now (m, cbs) i).2
    have hnot := (List.nodup_cons.mp h.distinct).1
    have hother : ∀ j ∈ is, (TimerManager.collectOne now (m, cbs) i).1.timers j = m.timers j := by
      intro j hj
      rw [hone.timers, if_neg]
      exact fun hji => hnot (List.mem_singleton.mp hji ▸ hj)
    rw [List.foldl_cons]
    refine ⟨⟨hrest.ordered, hrest.count.trans hone.count, hrest.previous.trans hone.previous,
      fun j => ?_, fun j => ?_⟩, ?_⟩
    · rw [hrest.timers]
      split
      · rename_i hj
        rw [hother j hj, if_pos (List.mem_cons_of_mem _ hj)]
      · rename_i hj
        rw [hone.timers]
        simp only [List.mem_cons, List.not_mem_nil, or_false, hj]
    · rw [hrest.set, hone.set]
      by_cases hj : j ∈ is
      · rw [hother j hj]
        simp [hj, or_assoc]
        tauto
      · simp [hj]
    · rw [hcbs, List.map_cons, List.append_cons]
      congr 1
      exact List.map_congr_left fun j hj => congrArg Timer.cb (hother j hj)

theorem mem_expired_or_drop (hi : i ∈ m.set) :
    i ∈ m.expired now addr ∨ i ∈ m.set.drop (m.expired now addr).length := by
  obtain ⟨rest, hrest⟩ := m.expired_prefix now addr
  rw [← hrest, List.drop_left]
  exact List.mem_append.mp (hrest ▸ hi)

/-- The timers of `expired` and those the erasure leaves. -/
theorem Ordered.taken (h : m.Ordered) (now : UInt64) (addr : Nat) :
    Taken { m with previous := now, set := m.set.drop (m.expired now addr).length }
      (m.expired now addr) := by
  have hheaded := m.expired_prefix now addr
  have hsub : ∀ i ∈ m.set.drop (m.expired now addr).length, i ∈ m.set :=
    fun i => List.mem_of_mem_drop
  have hdisjoint : ∀ i ∈ m.expired now addr, i ∉ m.set.drop (m.expired now addr).length := by
    obtain ⟨rest, hrest⟩ := hheaded
    have hnodup := h.nodup
    rw [← hrest] at hnodup
    rw [← hrest, List.drop_left]
    exact fun i hi hmem => (List.nodup_append.mp hnodup).2.2 i hi i hmem rfl
  refine ⟨⟨h.sorted.sublist (List.drop_sublist _ _), ?_⟩, h.nodup.sublist hheaded.sublist,
    hdisjoint, ?_⟩
  · exact fun i hi j hj heq => h.addr i (hsub i hi) j (hsub j hj) heq
  · rintro i hi j hj heq
    exact h.addr j (hj.elim (hsub j) (hheaded.subset ·)) i (hheaded.subset hi) heq

theorem Inv.listExpiredCb (h : m.Inv) (now : UInt64) (addr : Nat) :
    (m.listExpiredCb now addr).1.Inv ∧ m.Extends (m.listExpiredCb now addr).1 ∧
      (∀ i ∈ m.expired now addr,
        (m.listExpiredCb now addr).1.timers i = collectedTimer now (m.timers i) ∧
        ((m.timers i).recurring = false → i ∉ (m.listExpiredCb now addr).1.set)) ∧
      (m.listExpiredCb now addr).2 = (m.expired now addr).map fun i => (m.timers i).cb := by
  have hheaded := m.expired_prefix now addr
  rw [TimerManager.listExpiredCb]
  split
  · rename_i hempty
    have hexpired : m.expired now addr = [] := List.prefix_nil.mp (hempty ▸ hheaded)
    refine ⟨h, .refl m, ?_, ?_⟩
    · intro i hi
      rw [hexpired] at hi
      cases hi
    · rw [hexpired]
      rfl
  · obtain ⟨hc, hcbs⟩ := (h.taken now addr).collect now []
    have hset : ∀ i, i ∈ (((m.expired now addr).foldl (TimerManager.collectOne now)
        ({ m with previous := now, set := m.set.drop (m.expired now addr).length }, [])).1).set →
        i ∈ m.set ∧ (i ∈ m.expired now addr → (m.timers i).recurring = true) := by
      intro i hi
      rcases (hc.set i).mp hi with hi | ⟨hi, hrec⟩
      · exact ⟨List.mem_of_mem_drop hi, fun hmem => absurd hi ((h.taken now addr).taken i hmem)⟩
      · exact ⟨hheaded.subset hi, fun _ => hrec⟩
    refine ⟨{ hc.ordered with bound := ?_, active := ?_ }, ⟨hc.count.ge, ?_, ?_⟩, ?_, hcbs⟩
    · intro i hi
      rw [hc.count]
      exact h.bound i (hset i hi).1
    · intro i hi hcb
      rw [hc.count] at hi
      rw [hc.timers] at hcb
      rw [hc.set]
      split at hcb
      · rename_i hmem
        refine Or.inr ⟨hmem, ?_⟩
        cases hrec : (m.timers i).recurring with
        | true => rfl
        | false => simp [collectedTimer, hrec] at hcb
      · rename_i hmem
        exact Or.inl ((mem_expired_or_drop (h.active i hi hcb)).resolve_left hmem)
    · intro i _
      rw [hc.timers]
      split
      · exact recurring_collectedTimer
      · rfl
    · exact fun i _ hi => (hset i hi).1
    · intro i hi
      refine ⟨by rw [hc.timers, if_pos hi], fun hrec hmem => ?_⟩
      rw [(hset i hmem).2 hi] at hrec
      cases hrec

end TimerManager

/-! ### Runs -/

/-- What a caller sees: a `cancel` that answered true, and a call of `listExpiredCb` with the
    timers it collected, as they were, and the vector it left. -/
inductive TimerEvent where
  | cancelled (i : Nat)
  | collected (now : UInt64) (rollover : Bool) (due : List (Nat × Timer))
      (cbs : List (Option TimerCallback))
  deriving DecidableEq, Repr

def TimerEvent.timers : TimerEvent → List Nat
  | .cancelled _ => []
  | .collected _ _ due _ => due.map Prod.fst

structure TimerRun where
  manager : TimerManager
  history : List TimerEvent := []

namespace TimerRun

/-- The event of a call of `listExpiredCb`. -/
def collection (r : TimerRun) (now : UInt64) (addr : Nat) : TimerEvent :=
  .collected now (r.manager.detectClockRollover now)
    ((r.manager.expired now addr).map fun i => (i, r.manager.timers i))
    (r.manager.listExpiredCb now addr).2

def listExpiredCb (r : TimerRun) (now : UInt64) (addr : Nat) : TimerRun :=
  ⟨(r.manager.listExpiredCb now addr).1, r.history ++ [r.collection now addr]⟩

/-- The numbers of the timers collected, one for each time. -/
def collected (r : TimerRun) : List Nat := r.history.flatMap TimerEvent.timers

end TimerRun

/-- The operations in any order, with any clock readings. -/
def timerMachine : Machine TimerRun TimerAction where
  init r := ∃ previous, r = ⟨{ timers := fun _ => { addr := 0 }, previous }, []⟩
  step r
    | .addTimer ms cb recurring now addr =>
      if r.manager.Fresh addr then
        some { r with manager := (r.manager.addTimer ms cb recurring now addr).1 }
      else none
    | .addConditionTimer ms cb weakCond recurring now addr =>
      if r.manager.Fresh addr then
        some { r with
          manager := (r.manager.addConditionTimer ms cb weakCond recurring now addr).1 }
      else none
    | .cancel i =>
      if i < r.manager.count then
        (r.manager.cancel i).map fun (m, ok) =>
          ⟨m, if ok then r.history ++ [.cancelled i] else r.history⟩
      else none
    | .refresh i now =>
      if i < r.manager.count then some { r with manager := (r.manager.refresh i now).1 }
      else none
    | .reset i ms fromNow now =>
      if i < r.manager.count then
        some { r with manager := (r.manager.reset i ms fromNow now).1 }
      else none
    | .getNextTimer now => some { r with manager := (r.manager.getNextTimer now).1 }
    | .listExpiredCb now addr =>
      if r.manager.Fresh addr then some (r.listExpiredCb now addr) else none

namespace TimerRun

/-- The firing discipline, over the whole history. -/
structure Disciplined (r : TimerRun) : Prop where
  due : ∀ now due cbs, .collected now false due cbs ∈ r.history → ∀ x ∈ due, x.2.next ≤ now
  ordered : ∀ now due cbs, .collected now false due cbs ∈ r.history →
    due.Pairwise fun x y => x.2.next ≤ y.2.next
  callbacks : ∀ now rollover due cbs, .collected now rollover due cbs ∈ r.history →
    cbs = due.map fun x => x.2.cb
  once : ∀ i, (r.manager.timers i).recurring = false → r.collected.count i ≤ 1
  cancelled : ∀ i before after, r.history = before ++ .cancelled i :: after →
    i ∉ after.flatMap TimerEvent.timers

/-- The history and the timers: what has been collected or cancelled is out of the set, unless
    it is recurring. -/
structure Inv (r : TimerRun) : Prop where
  manager : r.manager.Inv
  disciplined : r.Disciplined
  bound : ∀ i ∈ r.collected, i < r.manager.count
  spent : ∀ i ∈ r.collected, (r.manager.timers i).recurring = false → i ∉ r.manager.set
  out : ∀ i, .cancelled i ∈ r.history → i < r.manager.count ∧ i ∉ r.manager.set

variable {r s : TimerRun} {m : TimerManager} {i : Nat} {now : UInt64} {addr : Nat}

/-- An operation that leaves no event. -/
theorem Inv.extend (h : r.Inv) (hm : m.Inv) (hext : r.manager.Extends m) :
    Inv { r with manager := m } where
  manager := hm
  disciplined := { h.disciplined with
    once := fun i hrec => by
      by_cases hi : i ∈ r.collected
      · rw [hext.recurring i (h.bound i hi)] at hrec
        exact h.disciplined.once i hrec
      · exact (List.count_eq_zero_of_not_mem hi).le.trans (Nat.zero_le 1) }
  bound i hi := (h.bound i hi).trans_le hext.count
  spent i hi hrec hmem := by
    have hlt := h.bound i hi
    rw [hext.recurring i hlt] at hrec
    exact h.spent i hi hrec (hext.set i hlt hmem)
  out i hi := by
    obtain ⟨hlt, hnot⟩ := h.out i hi
    exact ⟨hlt.trans_le hext.count, fun hmem => hnot (hext.set i hlt hmem)⟩

theorem mem_append_event {e x : TimerEvent} {l : List TimerEvent} :
    x ∈ l ++ [e] ↔ x ∈ l ∨ x = e := by
  rw [List.mem_append, List.mem_singleton]

theorem collected_append (m : TimerManager) (l : List TimerEvent) (e : TimerEvent) :
    collected ⟨m, l ++ [e]⟩ = collected ⟨m, l⟩ ++ e.timers := by
  rw [collected, collected, List.flatMap_append, List.flatMap_singleton]

/-- A split of a longer history at a cancellation is one of the shorter, unless nothing is
    behind it. -/
theorem split_append {e : TimerEvent} {l before after : List TimerEvent} {i : Nat}
    (h : l ++ [e] = before ++ .cancelled i :: after) :
    after = [] ∨ ∃ rest, after = rest ++ [e] ∧ l = before ++ .cancelled i :: rest := by
  rcases List.eq_nil_or_concat after with rfl | ⟨rest, x, rfl⟩
  · exact Or.inl rfl
  · right
    rw [List.concat_eq_append, ← List.cons_append, ← List.append_assoc] at h
    obtain ⟨hl, he⟩ := List.append_inj' h rfl
    refine ⟨rest, ?_, hl⟩
    rw [List.concat_eq_append, List.singleton_inj.mp he]

theorem Inv.cancelled (h : r.Inv) (hi : i < r.manager.count) (hnot : i ∉ r.manager.set) :
    Inv ⟨r.manager, r.history ++ [.cancelled i]⟩ where
  manager := h.manager
  disciplined := {
    due := fun now due cbs hmem => h.disciplined.due now due cbs
      ((mem_append_event.mp hmem).resolve_right (by simp))
    ordered := fun now due cbs hmem => h.disciplined.ordered now due cbs
      ((mem_append_event.mp hmem).resolve_right (by simp))
    callbacks := fun now rollover due cbs hmem => h.disciplined.callbacks now rollover due cbs
      ((mem_append_event.mp hmem).resolve_right (by simp))
    once := fun j hrec => by
      rw [collected_append]
      simpa [TimerEvent.timers] using h.disciplined.once j hrec
    cancelled := fun j before after hsplit => by
      rcases split_append hsplit with rfl | ⟨rest, rfl, hl⟩
      · simp
      · simpa [TimerEvent.timers] using h.disciplined.cancelled j before rest hl }
  bound j hj := by
    rw [collected_append] at hj
    exact h.bound j (by simpa [TimerEvent.timers] using hj)
  spent j hj := by
    rw [collected_append] at hj
    exact h.spent j (by simpa [TimerEvent.timers] using hj)
  out j hj := by
    rcases mem_append_event.mp hj with hj | hj
    · exact h.out j hj
    · cases hj
      exact ⟨hi, hnot⟩

/-- A call that collects timers of the set, each of them once. -/
theorem Inv.collect (h : r.Inv) (hm : m.Inv) (hext : r.manager.Extends m) {rollover : Bool}
    {due : List (Nat × Timer)} {cbs : List (Option TimerCallback)}
    (hin : ∀ i ∈ due.map Prod.fst, i ∈ r.manager.set) (hnodup : (due.map Prod.fst).Nodup)
    (hout : ∀ i ∈ due.map Prod.fst, (r.manager.timers i).recurring = false → i ∉ m.set)
    (hdue : rollover = false → ∀ x ∈ due, x.2.next ≤ now)
    (hordered : due.Pairwise fun x y => x.2.next ≤ y.2.next)
    (hcbs : cbs = due.map fun x => x.2.cb) :
    Inv ⟨m, r.history ++ [.collected now rollover due cbs]⟩ := by
  have hbase := h.extend hm hext
  have hrec : ∀ i ∈ due.map Prod.fst, (m.timers i).recurring = (r.manager.timers i).recurring :=
    fun i hi => hext.recurring i (h.manager.bound i (hin i hi))
  refine ⟨hm, ⟨?_, ?_, ?_, ?_, ?_⟩, ?_, ?_, ?_⟩
  · intro now' due' cbs' hmem x hx
    rcases mem_append_event.mp hmem with hmem | heq
    · exact h.disciplined.due now' due' cbs' hmem x hx
    · injection heq with hnow hroll hdue'
      subst hnow hdue'
      exact hdue hroll.symm x hx
  · intro now' due' cbs' hmem
    rcases mem_append_event.mp hmem with hmem | heq
    · exact h.disciplined.ordered now' due' cbs' hmem
    · injection heq with hnow hroll hdue'
      subst hdue'
      exact hordered
  · intro now' rollover' due' cbs' hmem
    rcases mem_append_event.mp hmem with hmem | heq
    · exact h.disciplined.callbacks now' rollover' due' cbs' hmem
    · injection heq with hnow hroll hdue' hcbs'
      subst hdue' hcbs'
      exact hcbs
  · intro i hnot
    rw [collected_append, List.count_append]
    by_cases hi : i ∈ due.map Prod.fst
    · have hfirst : i ∉ r.collected := by
        intro hmem
        rw [show (m.timers i).recurring = _ from hrec i hi] at hnot
        exact h.spent i hmem hnot (hin i hi)
      have hzero : (collected ⟨m, r.history⟩).count i = 0 := List.count_eq_zero_of_not_mem hfirst
      rw [hzero, Nat.zero_add]
      exact List.nodup_iff_count.mp hnodup i
    · have hzero : (due.map Prod.fst).count i = 0 := List.count_eq_zero_of_not_mem hi
      rw [TimerEvent.timers, hzero]
      exact hbase.disciplined.once i hnot
  · intro i before after hsplit
    rcases split_append hsplit with rfl | ⟨rest, rfl, hl⟩
    · simp
    · rw [List.flatMap_append, List.flatMap_singleton, List.mem_append]
      rintro (hi | hi)
      · exact h.disciplined.cancelled i before rest hl hi
      · exact (h.out i (by simp [hl])).2 (hin i hi)
  · intro i hi
    rw [collected_append] at hi
    rcases List.mem_append.mp hi with hi | hi
    · exact hbase.bound i hi
    · exact (h.manager.bound i (hin i hi)).trans_le hext.count
  · intro i hi hnot
    rw [collected_append] at hi
    rcases List.mem_append.mp hi with hi | hi
    · exact hbase.spent i hi hnot
    · exact hout i hi ((hrec i hi).symm.trans hnot)
  · intro i hi
    exact hbase.out i ((mem_append_event.mp hi).resolve_right (by simp))

/-- The timers of a call are a first part of the set, so they come in order. -/
theorem Inv.listExpiredCb (h : r.Inv) (now : UInt64) (addr : Nat) :
    (r.listExpiredCb now addr).Inv := by
  obtain ⟨hm, hext, hexpired, hcbs⟩ := h.manager.listExpiredCb now addr
  have hheaded := r.manager.expired_prefix now addr
  have hids : ((r.manager.expired now addr).map fun i => (i, r.manager.timers i)).map Prod.fst =
      r.manager.expired now addr := by
    simp [Function.comp_def]
  apply h.collect hm hext
  · intro i hi
    exact hheaded.subset (hids ▸ hi)
  · rw [hids]
    exact h.manager.nodup.sublist hheaded.sublist
  · intro i hi
    exact (hexpired i (hids ▸ hi)).2
  · intro hroll x hx
    obtain ⟨i, hi, rfl⟩ := List.mem_map.mp hx
    exact TimerManager.next_le_of_mem_expired hroll hi
  · rw [List.pairwise_map]
    apply List.Pairwise.imp TimerManager.next_le_of_less
    exact h.manager.sorted.sublist hheaded.sublist
  · rw [hcbs, List.map_map]
    rfl

theorem Inv.initial (previous : UInt64) :
    Inv ⟨{ timers := fun _ => { addr := 0 }, previous }, []⟩ where
  manager := {
    sorted := List.Pairwise.nil
    addr := by simp
    bound := by simp
    active := fun i hi => absurd hi (Nat.not_lt_zero i) }
  disciplined := {
    due := by simp
    ordered := by simp
    callbacks := by simp
    once := fun i _ => by simp [collected]
    cancelled := fun i before after h => by simp at h }
  bound i hi := by simp [collected] at hi
  spent i hi := by simp [collected] at hi
  out i hi := by simp at hi

theorem Inv.step (h : r.Inv) (a : TimerAction) (hs : timerMachine.step r a = some s) :
    s.Inv := by
  cases a with
  | addTimer ms cb recurring now addr =>
    obtain ⟨hfresh, heq⟩ := (Option.ite_none_right_eq_some ..).mp hs
    cases heq
    obtain ⟨hm, hext⟩ := h.manager.addTimer hfresh
    exact h.extend hm hext
  | addConditionTimer ms cb weakCond recurring now addr =>
    obtain ⟨hfresh, heq⟩ := (Option.ite_none_right_eq_some ..).mp hs
    cases heq
    obtain ⟨hm, hext⟩ := h.manager.addTimer hfresh
    exact h.extend hm hext
  | cancel i =>
    obtain ⟨hi, hcancel⟩ := (Option.ite_none_right_eq_some ..).mp hs
    obtain ⟨m, ok, heq, hm, hext, hout⟩ := h.manager.cancel hi
    rw [heq] at hcancel
    cases hcancel
    have hbase := h.extend hm hext
    cases ok with
    | false => exact hbase
    | true => exact hbase.cancelled (hi.trans_le hext.count) (hout rfl)
  | refresh i now =>
    obtain ⟨hi, heq⟩ := (Option.ite_none_right_eq_some ..).mp hs
    cases heq
    obtain ⟨hm, hext⟩ := h.manager.refresh hi now
    exact h.extend hm hext
  | reset i ms fromNow now =>
    obtain ⟨hi, heq⟩ := (Option.ite_none_right_eq_some ..).mp hs
    cases heq
    obtain ⟨hm, hext⟩ := h.manager.reset hi ms fromNow now
    exact h.extend hm hext
  | getNextTimer now =>
    cases hs
    obtain ⟨hm, hext⟩ := h.manager.getNextTimer now
    exact h.extend hm hext
  | listExpiredCb now addr =>
    obtain ⟨_, heq⟩ := (Option.ite_none_right_eq_some ..).mp hs
    cases heq
    exact h.listExpiredCb now addr

theorem inv_of_reachable (h : timerMachine.Reachable r) : r.Inv := by
  apply Machine.Reach.invariant _ _ h
  · rintro _ ⟨previous, rfl⟩
    exact .initial previous
  · exact fun r a s hr _ hs => hr.step a hs

end TimerRun

/-- In every run what the calls of `listExpiredCb` collect is disciplined, and a recurring timer
    is next due `m_ms` after the reading at which it was collected. -/
theorem timer_discipline (r : TimerRun) (h : timerMachine.Reachable r) :
    r.Disciplined ∧
      ∀ now addr s, timerMachine.step r (.listExpiredCb now addr) = some s →
        ∀ i ∈ r.manager.expired now addr, (r.manager.timers i).recurring = true →
          s.manager.timers i =
            { r.manager.timers i with next := now + (r.manager.timers i).ms } := by
  have hinv := TimerRun.inv_of_reachable h
  refine ⟨hinv.disciplined, ?_⟩
  intro now addr s hs i hi hrec
  obtain ⟨_, heq⟩ := (Option.ite_none_right_eq_some ..).mp hs
  cases heq
  have htimer := ((hinv.manager.listExpiredCb now addr).2.2.1 i hi).1
  rw [TimerManager.collectedTimer, if_pos hrec] at htimer
  exact htimer

/-- A recurring timer and one that is not are due at the same time; the second one is collected
    once, the first again until it is cancelled. -/
theorem timer_discipline_collectedTwice :
    ∃ r, timerMachine.Reachable r ∧ r.Disciplined ∧ r.collected = [1, 0, 0] := by
  have hrun : ((timerMachine.run ⟨{ timers := fun _ => { addr := 0 }, previous := 5000000 }, []⟩
      [.addTimer 10 (some (.fn 1)) true 5000000 20, .addTimer 5 (some (.fn 2)) false 5000005 10,
        .listExpiredCb 5000010 30, .refresh 0 5000012, .listExpiredCb 5000021 30,
        .listExpiredCb 5000022 30, .cancel 0, .listExpiredCb 5000100 30]).any
          fun r => r.collected = [1, 0, 0]) = true := by decide
  obtain ⟨r, hr, hcollected⟩ := (Option.any_eq_true _ _).mp hrun
  have hreach : timerMachine.Reachable r := Machine.Reachable.of_run _ ⟨5000000, rfl⟩ hr
  exact ⟨r, hreach, (timer_discipline r hreach).1, by simpa using hcollected⟩

end CppServerFramework.Async

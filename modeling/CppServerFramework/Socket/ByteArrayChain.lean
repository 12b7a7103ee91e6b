import CppServerFramework.Socket.ByteArray

/-!
# What the operations of a `ByteArray` do to its chain

`Chain` is the invariant every operation keeps.  `CurDenotes` says that `m_cur` is the node
that contains offset `m_position`; one lemma for each loop says what it does when that holds.
The chain is read as one sequence of bytes, `nodes.flatten`.
-/

namespace CppServerFramework.Socket
open Blocks

/-- The blocks all have the base size and there is at least one, `m_capacity` is their total
    length, and the cursor and the size lie inside it. -/
structure Chain (s : ByteArray) : Prop where
  base_pos : 0 < s.baseSize
  block : ∀ b ∈ s.nodes, b.length = s.baseSize
  capacity_eq : s.capacity = s.nodes.length * s.baseSize
  nodes_pos : 0 < s.nodes.length
  position_le : s.position ≤ s.size
  size_le : s.size ≤ s.capacity
  cur_valid : ∀ k, s.cur = some k → k < s.nodes.length

/-- `m_cur` is the node that contains `m_position`, unless that is the end of the chain. -/
def CurDenotes (s : ByteArray) : Prop :=
  s.position < s.capacity → s.cur = some (s.position / s.baseSize)

/-- The state after `n` bytes have been read. -/
def ByteArray.advance (s : ByteArray) (n : Nat) : ByteArray :=
  { s with
    cur := if s.position + n < s.capacity then some ((s.position + n) / s.baseSize) else none
    position := s.position + n }

/-- The offset in the chain at which a buffer starts, and the offsets it covers. -/
def Iovec.offsets (base : Nat) (v : Iovec) : List Nat :=
  List.range' (v.node * base + v.offset) v.length

/-- Segments inside the blocks of a chain that denote the `len` offsets from `pos` on, in
    order. -/
structure Segments (base : Nat) (nodes : List (List UInt8)) (iovs : List Iovec)
    (pos len : Nat) : Prop where
  inside : ∀ v ∈ iovs, v.node < nodes.length ∧ v.offset + v.length ≤ base
  cover : iovs.flatMap (Iovec.offsets base) = List.range' pos len

theorem Chain.length_flatten {s : ByteArray} (h : Chain s) :
    s.nodes.flatten.length = s.capacity := by
  rw [Blocks.length_flatten h.block, h.capacity_eq]

@[simp] theorem length_newNode (heap : Nat → UInt8) (size i : Nat) :
    (newNode heap size i).length = size := by
  simp [newNode]

theorem deref_some {nodes : List (List UInt8)} {k : Nat} (hk : k < nodes.length) :
    deref nodes (some k) = .ok (k, nodes[k]) := by
  simp [deref, List.getElem?_eq_getElem hk]

theorem next_of_lt {nodes : List (List UInt8)} {k : Nat} (hk : k + 1 < nodes.length) :
    next nodes k = some (k + 1) := if_pos hk

/-! ## Positions and blocks -/

theorem block_lt {count k : Nat} (base i : Nat) (h : k * base + i < count * base) :
    k < count := by
  by_contra hge
  have := Nat.mul_le_mul_right base (Nat.le_of_not_lt hge)
  omega

/-- An access that does not fit in block `k` needs the block behind it. -/
theorem block_succ_lt {count k : Nat} (base m : Nat) (hm : 0 < m)
    (h : (k + 1) * base + m ≤ count * base) : k + 1 < count := by
  by_contra hge
  have := Nat.mul_le_mul_right base (Nat.le_of_not_lt hge)
  omega

theorem block_div {base k i : Nat} (hi : i < base) : (k * base + i) / base = k := by
  rw [Nat.mul_comm, Nat.mul_add_div (by omega), Nat.div_eq_of_lt hi, Nat.add_zero]

/-! ## The loops -/

section Loops
variable {nodes : List (List UInt8)} {base : Nat}

/-- The loop of `write` overwrites the sequence and leaves `m_cur` at the node of the last
    byte written, whether or not that byte ends the node. -/
theorem writeLoop_spec (hbase : 0 < base) (fuel : Nat) :
    ∀ (s : ByteArray) (k npos : Nat) (buf : List UInt8), (∀ b ∈ s.nodes, b.length = base) →
      s.cur = some k → npos < base → buf ≠ [] → buf.length ≤ fuel →
      k * base + npos + buf.length ≤ s.nodes.length * base →
      ∃ ns, ByteArray.writeLoop fuel s npos (base - npos) buf = .ok { s with
          nodes := ns
          position := s.position + buf.length
          cur := some ((k * base + npos + buf.length - 1) / base) } ∧
        ns.flatten = overwrite s.nodes.flatten (k * base + npos) buf ∧
        ns.length = s.nodes.length ∧ ∀ b ∈ ns, b.length = base := by
  induction fuel with
  | zero =>
    intro s k npos buf _ _ _ hne hfuel
    exact absurd (List.eq_nil_of_length_eq_zero (by omega)) hne
  | succ fuel ih =>
    intro s k npos buf hblock hcur hnpos hne hfuel hfits
    have hpos : 0 < buf.length := List.length_pos_iff.mpr hne
    have hk : k < s.nodes.length := block_lt base npos (by omega)
    have hlen : s.nodes[k].length = base := hblock _ (List.getElem_mem hk)
    have hget : s.nodes[k]? = some s.nodes[k] := List.getElem?_eq_getElem hk
    obtain ⟨b, bs, rfl⟩ := List.exists_cons_of_ne_nil hne
    simp only [ByteArray.writeLoop]
    rw [hcur, deref_some hk]
    simp only [bind, Except.bind, pure, Except.pure]
    by_cases hlast : (b :: bs).length ≤ base - npos
    · refine ⟨s.nodes.set k (overwrite s.nodes[k] npos (b :: bs)), ?_, ?_, by simp, ?_⟩
      · -- `npos` is inside the node, so the test in the source is never true.
        rw [if_pos hlast, if_neg (by omega)]
        have hsum : k * base + npos + (b :: bs).length - 1 =
            k * base + (npos + (b :: bs).length - 1) := by omega
        rw [hsum, block_div (by omega)]
      · exact flatten_set_overwrite hblock hget (by omega)
      · exact length_of_mem_set hblock (by rw [length_overwrite (by omega), hlen])
    · have htake : ((b :: bs).take (base - npos)).length = base - npos := by
        rw [List.length_take]
        omega
      have hmul : (k + 1) * base = k * base + base := Nat.succ_mul k base
      have hk1 : k + 1 < s.nodes.length :=
        block_succ_lt base ((b :: bs).length - (base - npos)) (by omega) (by omega)
      have hblock' : ∀ c ∈ s.nodes.set k (overwrite s.nodes[k] npos ((b :: bs).take (base - npos))),
          c.length = base :=
        length_of_mem_set hblock (by rw [length_overwrite (by omega), hlen])
      have hset :
          (s.nodes.set k (overwrite s.nodes[k] npos ((b :: bs).take (base - npos)))).length =
            s.nodes.length := List.length_set
      rw [if_neg hlast, next_of_lt hk1, deref_some (by omega)]
      simp only []
      rw [hblock' _ (List.getElem_mem _)]
      obtain ⟨ns, hrun, hflat, hnlen, hnblock⟩ :=
        ih { s with
            nodes := s.nodes.set k (overwrite s.nodes[k] npos ((b :: bs).take (base - npos)))
            position := s.position + (base - npos)
            cur := some (k + 1) }
          (k + 1) 0 ((b :: bs).drop (base - npos)) hblock' rfl hbase
          (by rw [← List.length_pos_iff, List.length_drop]; omega)
          (by rw [List.length_drop]; omega)
          (by rw [List.length_drop]; simp only [hset]; omega)
      refine ⟨ns, ?_, ?_, by rw [hnlen]; exact hset, hnblock⟩
      · rw [Nat.sub_zero] at hrun
        rw [hrun]
        simp only [List.length_drop]
        rw [show s.position + (base - npos) + ((b :: bs).length - (base - npos)) =
          s.position + (b :: bs).length by omega,
          show (k + 1) * base + 0 + ((b :: bs).length - (base - npos)) - 1 =
            k * base + npos + (b :: bs).length - 1 by omega]
      · rw [hflat]
        simp only []
        rw [flatten_set_overwrite hblock hget (by omega)]
        have hcat : (b :: bs).take (base - npos) ++ (b :: bs).drop (base - npos) = b :: bs :=
          List.take_append_drop _ _
        conv_rhs => rw [← hcat]
        rw [← overwrite_append (by rw [Blocks.length_flatten hblock]; omega), htake,
          show k * base + npos + (base - npos) = (k + 1) * base + 0 by omega]

/-- The loop of `read` copies a slice of the sequence and leaves `m_cur` at the node of the
    byte behind it, null at the end of the chain. -/
theorem readLoop_spec (hbase : 0 < base) (hblock : ∀ b ∈ nodes, b.length = base) (fuel : Nat) :
    ∀ (k npos n : Nat), npos < base → 0 < n → n ≤ fuel →
      k * base + npos + n ≤ nodes.length * base →
      ByteArray.readLoop nodes fuel (some k) npos (base - npos) n =
        .ok (slice nodes.flatten (k * base + npos) n,
          if k * base + npos + n < nodes.length * base then
            some ((k * base + npos + n) / base) else none) := by
  induction fuel with
  | zero => intro k npos n _ h0 hfuel; omega
  | succ fuel ih =>
    intro k npos n hnpos h0 hfuel hfits
    have hk : k < nodes.length := block_lt base npos (by omega)
    have hlen : nodes[k].length = base := hblock _ (List.getElem_mem hk)
    have hget : nodes[k]? = some nodes[k] := List.getElem?_eq_getElem hk
    have hmul : (k + 1) * base = k * base + base := Nat.succ_mul k base
    obtain ⟨m, rfl⟩ := Nat.exists_eq_succ_of_ne_zero (Nat.pos_iff_ne_zero.mp h0)
    simp only [ByteArray.readLoop]
    rw [deref_some hk]
    simp only [bind, Except.bind, pure, Except.pure]
    by_cases hlast : m + 1 ≤ base - npos
    · rw [if_pos hlast, slice_flatten hblock hget (by omega), hlen]
      congr 2
      by_cases hend : base = npos + (m + 1)
      · rw [if_pos hend, next]
        have hsum : k * base + npos + (m + 1) = (k + 1) * base := by omega
        by_cases hk1 : k + 1 < nodes.length
        · have := Nat.mul_lt_mul_of_pos_right hk1 hbase
          rw [if_pos hk1, if_pos (by omega), hsum, Nat.mul_div_cancel _ hbase]
        · have := Nat.mul_le_mul_right base (Nat.le_of_not_lt hk1)
          rw [if_neg hk1, if_neg (by omega)]
      · have := Nat.mul_le_mul_right base (Nat.succ_le_of_lt hk)
        rw [if_neg hend, if_pos (by rw [Nat.succ_mul] at this; omega),
          show k * base + npos + (m + 1) = k * base + (npos + (m + 1)) by omega,
          block_div (by omega)]
    · have hk1 : k + 1 < nodes.length :=
        block_succ_lt base (m + 1 - (base - npos)) (by omega) (by omega)
      rw [if_neg hlast, next_of_lt hk1, deref_some hk1]
      simp only []
      rw [hblock _ (List.getElem_mem hk1)]
      have hrest := ih (k + 1) 0 (m + 1 - (base - npos)) hbase (by omega) (by omega) (by omega)
      rw [Nat.sub_zero] at hrest
      rw [hrest, ← slice_flatten hblock hget (by omega)]
      simp only []
      rw [show (k + 1) * base + 0 = k * base + npos + (base - npos) by omega, ← slice_add,
        show base - npos + (m + 1 - (base - npos)) = m + 1 by omega,
        show k * base + npos + (base - npos) + (m + 1 - (base - npos)) =
          k * base + npos + (m + 1) by omega]

/-- The loop of `read` uses the null pointer when it is asked for more than the chain holds. -/
theorem readLoop_beyond (hbase : 0 < base) (hblock : ∀ b ∈ nodes, b.length = base) (fuel : Nat) :
    ∀ (k npos n : Nat), npos < base → k < nodes.length → n ≤ fuel →
      nodes.length * base < k * base + npos + n →
      ByteArray.readLoop nodes fuel (some k) npos (base - npos) n = .error .nullNode := by
  induction fuel with
  | zero =>
    intro k npos n hnpos hk hfuel hbeyond
    have := Nat.mul_le_mul_right base (Nat.succ_le_of_lt hk)
    rw [Nat.succ_mul] at this
    omega
  | succ fuel ih =>
    intro k npos n hnpos hk hfuel hbeyond
    have hend := Nat.mul_le_mul_right base (Nat.succ_le_of_lt hk)
    have hmul : (k + 1) * base = k * base + base := Nat.succ_mul k base
    rw [Nat.succ_mul] at hend
    obtain ⟨m, rfl⟩ := Nat.exists_eq_succ_of_ne_zero (show n ≠ 0 by omega)
    simp only [ByteArray.readLoop]
    rw [deref_some hk]
    simp only [bind, Except.bind, pure, Except.pure]
    rw [if_neg (by omega)]
    by_cases hk1 : k + 1 < nodes.length
    · rw [next_of_lt hk1, deref_some hk1]
      simp only []
      have hrest := ih (k + 1) 0 (m + 1 - (base - npos)) hbase hk1 (by omega) (by omega)
      rw [Nat.sub_zero] at hrest
      rw [hblock _ (List.getElem_mem hk1), hrest]
    · rw [next, if_neg hk1]
      rfl

/-- The walk of `setPosition` ends at the node of offset `v`, null at the end of the chain. -/
theorem seek_spec (hbase : 0 < base) :
    ∀ {nodes : List (List UInt8)} (i : Nat) {v : Nat}, (∀ b ∈ nodes, b.length = base) →
      nodes ≠ [] → v ≤ nodes.length * base →
      ByteArray.seek nodes i v =
        .ok (if v < nodes.length * base then some (i + v / base) else none) := by
  intro nodes
  induction nodes with
  | nil => intro i v _ hne; exact absurd rfl hne
  | cons node rest ih =>
    intro i v hblock _ hv
    have hlen : node.length = base := hblock node (by simp)
    have hmul : (rest.length + 1) * base = rest.length * base + base := Nat.succ_mul _ _
    rw [List.length_cons, hmul] at hv
    rw [List.length_cons, hmul, ByteArray.seek, hlen]
    by_cases hbeyond : base < v
    · have hrest : rest ≠ [] := by
        rintro rfl
        simp only [List.length_nil, Nat.zero_mul, Nat.zero_add] at hv
        omega
      rw [if_pos hbeyond, ih (i + 1) (fun b hb => hblock b (List.mem_cons_of_mem _ hb)) hrest
        (by omega)]
      have hdiv : v / base = (v - base) / base + 1 := by
        rw [← Nat.add_div_right _ hbase, Nat.sub_add_cancel (by omega)]
      by_cases hin : v - base < rest.length * base
      · rw [if_pos hin, if_pos (by omega), hdiv, Nat.add_assoc, Nat.add_comm 1]
      · rw [if_neg hin, if_neg (by omega)]
    · rw [if_neg hbeyond]
      by_cases hend : v = base
      · rw [if_pos hend]
        cases rest with
        | nil => simp [hend]
        | cons r rs =>
          have hpos : 0 < (r :: rs).length * base := Nat.mul_pos (Nat.succ_pos _) hbase
          rw [if_neg (by simp), if_pos (by omega), hend, Nat.div_self hbase]
      · rw [if_neg hend, if_pos (by omega), Nat.div_eq_of_lt (by omega), Nat.add_zero]

/-- The loop of `getWriteBuffers` and `getReadBuffers` cuts the bytes asked for into segments. -/
theorem bufferLoop_spec (hbase : 0 < base) (hblock : ∀ b ∈ nodes, b.length = base) (fuel : Nat) :
    ∀ (k npos n : Nat), npos < base → 0 < n → n ≤ fuel →
      k * base + npos + n ≤ nodes.length * base →
      ∃ iovs, ByteArray.bufferLoop nodes fuel (some k) npos (base - npos) n = .ok iovs ∧
        Segments base nodes iovs (k * base + npos) n := by
  induction fuel with
  | zero => intro k npos n _ h0 hfuel; omega
  | succ fuel ih =>
    intro k npos n hnpos h0 hfuel hfits
    have hk : k < nodes.length := block_lt base npos (by omega)
    have hmul : (k + 1) * base = k * base + base := Nat.succ_mul k base
    obtain ⟨m, rfl⟩ := Nat.exists_eq_succ_of_ne_zero (Nat.pos_iff_ne_zero.mp h0)
    simp only [ByteArray.bufferLoop]
    rw [deref_some hk]
    simp only [bind, Except.bind, pure, Except.pure]
    by_cases hlast : m + 1 ≤ base - npos
    · rw [if_pos hlast]
      refine ⟨_, rfl, fun v hv => ?_, by simp [Iovec.offsets]⟩
      rw [List.mem_singleton.mp hv]
      exact ⟨hk, by simp only []; omega⟩
    · have hk1 : k + 1 < nodes.length :=
        block_succ_lt base (m + 1 - (base - npos)) (by omega) (by omega)
      obtain ⟨iovs, hrun, hinside, hcover⟩ :=
        ih (k + 1) 0 (m + 1 - (base - npos)) hbase (by omega) (by omega) (by omega)
      rw [Nat.sub_zero] at hrun
      rw [if_neg hlast, next_of_lt hk1, deref_some hk1]
      simp only []
      rw [hblock _ (List.getElem_mem hk1), hrun]
      refine ⟨_, rfl, fun v hv => ?_, ?_⟩
      · rcases List.mem_cons.mp hv with rfl | hv
        · exact ⟨hk, by simp only []; omega⟩
        · exact hinside v hv
      rw [List.flatMap_cons, hcover, Iovec.offsets,
        show (k + 1) * base + 0 = k * base + npos + 1 * (base - npos) by omega,
        List.range'_append, show base - npos + (m + 1 - (base - npos)) = m + 1 by omega]

theorem bufferLoop_beyond (hbase : 0 < base) (hblock : ∀ b ∈ nodes, b.length = base)
    (fuel : Nat) :
    ∀ (k npos n : Nat), npos < base → k < nodes.length → n ≤ fuel →
      nodes.length * base < k * base + npos + n →
      ByteArray.bufferLoop nodes fuel (some k) npos (base - npos) n = .error .nullNode := by
  induction fuel with
  | zero =>
    intro k npos n hnpos hk hfuel hbeyond
    have := Nat.mul_le_mul_right base (Nat.succ_le_of_lt hk)
    rw [Nat.succ_mul] at this
    omega
  | succ fuel ih =>
    intro k npos n hnpos hk hfuel hbeyond
    have hend := Nat.mul_le_mul_right base (Nat.succ_le_of_lt hk)
    have hmul : (k + 1) * base = k * base + base := Nat.succ_mul k base
    rw [Nat.succ_mul] at hend
    obtain ⟨m, rfl⟩ := Nat.exists_eq_succ_of_ne_zero (show n ≠ 0 by omega)
    simp only [ByteArray.bufferLoop]
    rw [deref_some hk]
    simp only [bind, Except.bind, pure, Except.pure]
    rw [if_neg (by omega)]
    by_cases hk1 : k + 1 < nodes.length
    · rw [next_of_lt hk1, deref_some hk1]
      simp only []
      have hrest := ih (k + 1) 0 (m + 1 - (base - npos)) hbase hk1 (by omega) (by omega)
      rw [Nat.sub_zero] at hrest
      rw [hblock _ (List.getElem_mem hk1), hrest]
    · rw [next, if_neg hk1]
      rfl

end Loops

/-! ## The operations -/

/-- The offset of the cursor inside its block. -/
theorem Chain.mod_lt {s : ByteArray} (h : Chain s) : s.position % s.baseSize < s.baseSize :=
  Nat.mod_lt _ h.base_pos

theorem Chain.new {base : Nat} (hbase : 0 < base) (heap : Nat → UInt8) :
    Chain (ByteArray.new base heap) where
  base_pos := hbase
  block b hb := by
    rw [List.mem_singleton.mp hb]
    exact length_newNode heap base 0
  capacity_eq := by simp [ByteArray.new]
  nodes_pos := by simp [ByteArray.new]
  position_le := Nat.le_refl _
  size_le := Nat.zero_le _
  cur_valid k hk := by
    cases hk
    simp [ByteArray.new]

theorem Chain.clear {s : ByteArray} (h : Chain s) : Chain s.clear where
  base_pos := h.base_pos
  block b hb := h.block b (List.mem_of_mem_take hb)
  capacity_eq := by
    have := h.nodes_pos
    simp [ByteArray.clear, List.length_take, Nat.min_eq_left this]
  nodes_pos := by
    have := h.nodes_pos
    simp only [ByteArray.clear, List.length_take]
    omega
  position_le := Nat.le_refl _
  size_le := Nat.zero_le _
  cur_valid k hk := by
    have := h.nodes_pos
    cases hk
    simp only [ByteArray.clear, List.length_take]
    omega

theorem Chain.advance {s : ByteArray} (h : Chain s) {n : Nat} (hn : s.position + n ≤ s.size) :
    Chain (s.advance n) where
  base_pos := h.base_pos
  block := h.block
  capacity_eq := h.capacity_eq
  nodes_pos := h.nodes_pos
  position_le := hn
  size_le := h.size_le
  cur_valid k hk := by
    simp only [ByteArray.advance] at hk
    split at hk
    · rename_i hlt
      cases hk
      rw [h.capacity_eq] at hlt
      exact (Nat.div_lt_iff_lt_mul h.base_pos).mpr hlt
    · cases hk

theorem CurDenotes.advance (s : ByteArray) (n : Nat) : CurDenotes (s.advance n) :=
  fun hlt => if_pos hlt

theorem Chain.setPosition {s : ByteArray} (h : Chain s) {v : Nat} (hv : v ≤ s.capacity) :
    Chain { s with
      position := v
      size := max s.size v
      cur := if v < s.capacity then some (v / s.baseSize) else none } where
  base_pos := h.base_pos
  block := h.block
  capacity_eq := h.capacity_eq
  nodes_pos := h.nodes_pos
  position_le := Nat.le_max_right _ _
  size_le := Nat.max_le.mpr ⟨h.size_le, hv⟩
  cur_valid k hk := by
    split at hk
    · cases hk
      exact (Nat.div_lt_iff_lt_mul h.base_pos).mpr (by rw [← h.capacity_eq]; assumption)
    · cases hk

/-- The number of blocks `addCapacity` asks for covers `size` and leaves less than a block. -/
theorem blocks_needed {base size : Nat} (hbase : 0 < base) (hsize : 0 < size) :
    let count := size / base + (if size % base ≠ 0 then 1 else 0)
    size ≤ count * base ∧ count * base < size + base ∧ 0 < count := by
  have hdm := Nat.div_add_mod' size base
  have hlt := Nat.mod_lt size hbase
  by_cases h : size % base ≠ 0
  · simp only [if_pos h, Nat.succ_mul]
    exact ⟨by omega, by omega, Nat.succ_pos _⟩
  · simp only [if_neg h, Nat.add_zero]
    refine ⟨by omega, by omega, Nat.pos_of_ne_zero fun h0 => ?_⟩
    rw [h0] at hdm
    omega

/-- `addCapacity` appends blocks until `size` bytes fit behind the cursor, never a whole block
    more than that, and moves `m_cur` only from the end of the chain. -/
theorem addCapacity_eq {s : ByteArray} (h : Chain s) {size : Nat} (hsize : 0 < size)
    (heap : Nat → UInt8) :
    ∃ fresh : List (List UInt8), s.addCapacity size heap = { s with
        nodes := s.nodes ++ fresh
        capacity := s.capacity + fresh.length * s.baseSize
        cur := if s.position < s.capacity then s.cur else some (s.position / s.baseSize) } ∧
      (∀ b ∈ fresh, b.length = s.baseSize) ∧
      s.position + size ≤ s.capacity + fresh.length * s.baseSize ∧
      (fresh = [] ∨ s.capacity + fresh.length * s.baseSize < s.position + size + s.baseSize) := by
  have hpos := h.position_le
  have hle := h.size_le
  unfold ByteArray.addCapacity ByteArray.getCapacity
  rw [if_neg (by omega)]
  simp only []
  by_cases hfits : size ≤ s.capacity - s.position
  · refine ⟨[], ?_, by simp, by simp; omega, Or.inl rfl⟩
    rw [if_pos hfits, if_pos (by omega)]
    simp
  · rw [if_neg hfits]
    obtain ⟨hcover, htight, hcount⟩ :=
      blocks_needed h.base_pos (show 0 < size - (s.capacity - s.position) by omega)
    generalize (size - (s.capacity - s.position)) / s.baseSize +
      (if (size - (s.capacity - s.position)) % s.baseSize ≠ 0 then 1 else 0) = count at *
    refine ⟨(List.range' s.nodes.length count).map (newNode heap s.baseSize), ?_, ?_, ?_, ?_⟩
    · congr 1
      · simp
      · by_cases hfull : s.capacity - s.position = 0
        · -- the cursor is at the end of the old chain, the start of the first new block
          have hend : s.position = s.nodes.length * s.baseSize := by
            rw [← h.capacity_eq]
            omega
          have hdiv : s.position / s.baseSize = s.nodes.length := by
            rw [hend, Nat.mul_div_cancel _ h.base_pos]
          rw [if_pos hfull, if_neg (by omega), if_neg (by omega), hdiv]
        · rw [if_neg hfull, if_pos (by omega)]
    · intro b hb
      obtain ⟨i, -, rfl⟩ := List.mem_map.mp hb
      exact length_newNode heap _ i
    · simp only [List.length_map, List.length_range']
      omega
    · refine Or.inr ?_
      simp only [List.length_map, List.length_range']
      omega

/-- Where `m_cur` denotes the cursor, it still does. -/
theorem addCapacity_spec {s : ByteArray} (h : Chain s) (hcur : CurDenotes s) {size : Nat}
    (hsize : 0 < size) (heap : Nat → UInt8) :
    ∃ fresh : List (List UInt8), s.addCapacity size heap = { s with
        nodes := s.nodes ++ fresh
        capacity := s.capacity + fresh.length * s.baseSize
        cur := some (s.position / s.baseSize) } ∧
      (∀ b ∈ fresh, b.length = s.baseSize) ∧
      s.position + size ≤ s.capacity + fresh.length * s.baseSize ∧
      (fresh = [] ∨ s.capacity + fresh.length * s.baseSize < s.position + size + s.baseSize) := by
  obtain ⟨fresh, hadd, hrest⟩ := addCapacity_eq h hsize heap
  refine ⟨fresh, ?_, hrest⟩
  have hsame : (if s.position < s.capacity then s.cur else some (s.position / s.baseSize)) =
      some (s.position / s.baseSize) := by
    split
    · next hlt => exact hcur hlt
    · rfl
  rw [hadd, hsame]

/-- Blocks appended behind the chain, with `m_cur` set inside it. -/
theorem Chain.append {s : ByteArray} (h : Chain s) {fresh : List (List UInt8)}
    (hfresh : ∀ b ∈ fresh, b.length = s.baseSize) {k : Nat}
    (hk : k < s.nodes.length + fresh.length) :
    Chain { s with
      nodes := s.nodes ++ fresh
      capacity := s.capacity + fresh.length * s.baseSize
      cur := some k } where
  base_pos := h.base_pos
  block b hb := (List.mem_append.mp hb).elim (h.block b) (hfresh b)
  capacity_eq := by simp only [List.length_append, Nat.add_mul, h.capacity_eq]
  nodes_pos := by
    have := h.nodes_pos
    simp only [List.length_append]
    omega
  position_le := h.position_le
  size_le := Nat.le_trans h.size_le (Nat.le_add_right _ _)
  cur_valid i hi := by
    cases hi
    simpa using hk

theorem Chain.length_append_mul {s : ByteArray} (h : Chain s) (fresh : List (List UInt8)) :
    (s.nodes ++ fresh).length * s.baseSize = s.capacity + fresh.length * s.baseSize := by
  rw [List.length_append, Nat.add_mul, h.capacity_eq]

/-- The block of the cursor is one of the blocks that there are then. -/
theorem block_append {s : ByteArray} (h : Chain s) {fresh : List (List UInt8)} {size : Nat}
    (hsize : 0 < size) (hroom : s.position + size ≤ s.capacity + fresh.length * s.baseSize) :
    s.position / s.baseSize < (s.nodes ++ fresh).length := by
  have hsum := h.length_append_mul fresh
  have hdm := Nat.div_add_mod' s.position s.baseSize
  exact block_lt s.baseSize (s.position % s.baseSize) (by omega)

/-- What `write` of a nonempty buffer makes of the state `s`. -/
structure Wrote (s : ByteArray) (buf : List UInt8) (t : ByteArray) : Prop where
  chain : Chain t
  baseSize : t.baseSize = s.baseSize
  endian : t.endian = s.endian
  position : t.position = s.position + buf.length
  size : t.size = max s.size (s.position + buf.length)
  cur : t.cur = some ((s.position + buf.length - 1) / s.baseSize)
  bytes : ∃ fresh, t.nodes.flatten = overwrite (s.nodes.flatten ++ fresh) s.position buf
  grown : t.capacity = s.capacity ∨
    s.capacity < t.capacity ∧ t.capacity < t.position + s.baseSize

theorem write_spec {s : ByteArray} (h : Chain s) (hcur : CurDenotes s) {buf : List UInt8}
    (hne : buf ≠ []) (heap : Nat → UInt8) : ∃ t, s.write buf heap = .ok t ∧ Wrote s buf t := by
  have hpos : 0 < buf.length := List.length_pos_iff.mpr hne
  obtain ⟨fresh, hadd, hfresh, hroom, htight⟩ := addCapacity_spec h hcur hpos heap
  have hsum := h.length_append_mul fresh
  have hdm := Nat.div_add_mod' s.position s.baseSize
  have hk := block_append h hpos hroom
  have hchain := h.append hfresh (by rw [← List.length_append]; exact hk)
  obtain ⟨ns, hrun, hflat, hlen, hblock⟩ :=
    writeLoop_spec h.base_pos buf.length _ _ _ buf hchain.block rfl h.mod_lt hne (Nat.le_refl _)
      (by simp only []; omega)
  refine ⟨{ s with
      nodes := ns
      capacity := s.capacity + fresh.length * s.baseSize
      position := s.position + buf.length
      size := max s.size (s.position + buf.length)
      cur := some ((s.position + buf.length - 1) / s.baseSize) }, ?_, ?_⟩
  · unfold ByteArray.write
    rw [if_neg (by omega), hadd]
    simp only []
    rw [deref_some hk]
    simp only [bind, Except.bind, pure, Except.pure]
    rw [hchain.block _ (List.getElem_mem hk), hrun]
    simp only [hdm]
    by_cases hgrow : s.size < s.position + buf.length
    · rw [if_pos hgrow, Nat.max_eq_right (by omega)]
    · rw [if_neg hgrow, Nat.max_eq_left (by omega)]
  · refine ⟨⟨h.base_pos, hblock, ?_, hlen ▸ Nat.zero_lt_of_lt hk, Nat.le_max_right _ _, ?_, ?_⟩,
      rfl, rfl, rfl, rfl, rfl, ⟨fresh.flatten, ?_⟩, ?_⟩
    · simp only []
      rw [hlen, ← hsum]
    · have := h.size_le
      simp only []
      omega
    · intro k hk'
      cases hk'
      rw [hlen]
      simp only []
      exact (Nat.div_lt_iff_lt_mul h.base_pos).mpr (by omega)
    · rw [hflat, hdm, List.flatten_append]
    · rcases htight with rfl | htight
      · exact Or.inl (by simp)
      · cases fresh with
        | nil => exact Or.inl (by simp)
        | cons b bs =>
          have hmore : 0 < (b :: bs).length * s.baseSize := Nat.mul_pos (Nat.succ_pos _) h.base_pos
          exact Or.inr ⟨by simp only []; omega, htight⟩

theorem read_spec {s : ByteArray} (h : Chain s) (hcur : CurDenotes s) {n : Nat} (hpos : 0 < n)
    (hn : n ≤ s.getReadSize) :
    s.read n = .ok (slice s.nodes.flatten s.position n, s.advance n) := by
  have hle := h.size_le
  have hcap := h.capacity_eq
  have hdm := Nat.div_add_mod' s.position s.baseSize
  have hsize : s.position + n ≤ s.size := by
    unfold ByteArray.getReadSize at hn
    omega
  have hk : s.position / s.baseSize < s.nodes.length :=
    block_lt s.baseSize (s.position % s.baseSize) (by omega)
  unfold ByteArray.read
  rw [if_neg (by omega), hcur (by omega), deref_some hk]
  simp only [bind, Except.bind, pure, Except.pure]
  rw [h.block _ (List.getElem_mem hk),
    readLoop_spec h.base_pos h.block n _ _ n h.mod_lt hpos (Nat.le_refl _) (by omega)]
  simp only [hdm, ← hcap, ByteArray.advance]

theorem toString_spec {s : ByteArray} (h : Chain s) (hcur : s.getReadSize ≠ 0 → CurDenotes s) :
    s.toString = .ok (slice s.nodes.flatten s.position s.getReadSize) := by
  have hle := h.size_le
  have hcap := h.capacity_eq
  have hdm := Nat.div_add_mod' s.position s.baseSize
  unfold ByteArray.toString ByteArray.readAt
  by_cases h0 : s.getReadSize = 0
  · rw [if_pos h0, h0]
    simp [slice]
  · have hlt : s.position < s.size := by
      unfold ByteArray.getReadSize at h0
      omega
    have hk : s.position / s.baseSize < s.nodes.length :=
      block_lt s.baseSize (s.position % s.baseSize) (by omega)
    rw [if_neg h0, if_neg (by rw [ByteArray.remaining, if_pos h.position_le,
      ByteArray.getReadSize]; omega), hcur h0 (by omega), deref_some hk]
    simp only [bind, Except.bind, pure, Except.pure]
    rw [h.block _ (List.getElem_mem hk), readLoop_spec h.base_pos h.block _ _ _ _ h.mod_lt
      (Nat.pos_of_ne_zero h0) (Nat.le_refl _) (by unfold ByteArray.getReadSize; omega)]
    simp only [hdm]

theorem setPosition_spec {s : ByteArray} (h : Chain s) {v : Nat} (hv : v ≤ s.capacity) :
    s.setPosition v = .ok { s with
      position := v
      size := max s.size v
      cur := if v < s.capacity then some (v / s.baseSize) else none } := by
  have hcap := h.capacity_eq
  unfold ByteArray.setPosition
  rw [if_neg (by omega), seek_spec h.base_pos 0 h.block (List.ne_nil_of_length_pos h.nodes_pos)
    (by omega)]
  simp only [bind, Except.bind, pure, Except.pure, hcap, Nat.zero_add]
  by_cases hgrow : s.size < v
  · rw [if_pos hgrow, Nat.max_eq_right (by omega)]
  · rw [if_neg hgrow, Nat.max_eq_left (by omega)]

theorem getWriteBuffers_spec {s : ByteArray} (h : Chain s) (hcur : CurDenotes s) {len : Nat}
    (hlen : 0 < len) (heap : Nat → UInt8) :
    ∃ iovs t, s.getWriteBuffers len heap = .ok (iovs, t) ∧ Chain t ∧ CurDenotes t ∧
      Segments s.baseSize t.nodes iovs s.position len ∧ s.position + len ≤ t.capacity ∧
      t.baseSize = s.baseSize ∧ t.position = s.position ∧ t.size = s.size ∧
      ∃ fresh, t.nodes.flatten = s.nodes.flatten ++ fresh := by
  obtain ⟨fresh, hadd, hfresh, hroom, -⟩ := addCapacity_spec h hcur hlen heap
  have hsum := h.length_append_mul fresh
  have hdm := Nat.div_add_mod' s.position s.baseSize
  have hk := block_append h hlen hroom
  have hchain := h.append hfresh (by rw [← List.length_append]; exact hk)
  obtain ⟨iovs, hrun, hsegments⟩ := bufferLoop_spec h.base_pos hchain.block len
    (s.position / s.baseSize) (s.position % s.baseSize) len h.mod_lt hlen (Nat.le_refl _)
    (by simp only []; omega)
  rw [hdm] at hsegments
  refine ⟨iovs, _, ?_, hchain, fun _ => rfl, hsegments, hroom, rfl, rfl, rfl, fresh.flatten,
    by simp⟩
  unfold ByteArray.getWriteBuffers
  rw [if_neg (by omega), hadd]
  simp only []
  rw [deref_some hk]
  simp only [bind, Except.bind, pure, Except.pure]
  rw [hchain.block _ (List.getElem_mem hk), hrun]

end CppServerFramework.Socket

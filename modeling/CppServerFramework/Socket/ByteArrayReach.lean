import CppServerFramework.Socket.ByteArrayTransfer
import CppServerFramework.Socket.ByteArrayTyped

/-!
# The states a `ByteArray` can be in

`write` leaves `m_cur` behind when it ends at the end of a block, and what follows starts from
there, so that `m_cur` may be any number of nodes behind the cursor.  It is never ahead of it, and
null only at the end of the chain (`Lagging`).  `visible` is what reads find from there on.
-/

namespace CppServerFramework.Socket
open Blocks

/-- `m_cur` is the node of the cursor or one before it, and null only at the end of the chain. -/
structure Lagging (s : ByteArray) : Prop where
  chain : Chain s
  behind : ∀ k, s.cur = some k → k ≤ s.position / s.baseSize
  atEnd : s.cur = none → s.position = s.capacity

namespace ByteArray

/-- The offset in the chain at which an operation starts from node `k`. -/
def start (s : ByteArray) (k : Nat) : Nat := k * s.baseSize + s.position % s.baseSize

/-- The bytes that reads find, from the node of `m_cur` on. -/
def visible (s : ByteArray) : List UInt8 :=
  match s.cur with
  | none => []
  | some k => slice s.nodes.flatten (s.start k) s.getReadSize

end ByteArray

/-! ## Operations from a node behind the cursor -/

variable {s t : ByteArray}

theorem Lagging.new {base : Nat} (hbase : 0 < base) (heap : Nat → UInt8) :
    Lagging (ByteArray.new base heap) where
  chain := .new hbase heap
  behind k hk := by
    cases hk
    exact Nat.zero_le _
  atEnd hnone := by cases hnone

/-- What lies in the chain behind the cursor also lies in it behind `m_cur`. -/
theorem Lagging.fits (h : Lagging s) {k n : Nat} (hk : s.cur = some k)
    (hn : s.position + n ≤ s.capacity) : s.start k + n ≤ s.nodes.length * s.baseSize := by
  have hle := Nat.mul_le_mul_right s.baseSize (h.behind k hk)
  have hdm := Nat.div_add_mod' s.position s.baseSize
  rw [ByteArray.start, ← h.chain.capacity_eq]
  omega

theorem Lagging.cur_some (h : Lagging s) (hlt : s.position < s.capacity) :
    ∃ k, s.cur = some k := by
  refine Option.ne_none_iff_exists'.mp fun hnone => ?_
  have := h.atEnd hnone
  omega

theorem Lagging.position_le (h : Lagging s) : s.position ≤ s.capacity :=
  h.chain.position_le.trans h.chain.size_le

theorem Lagging.of_denotes (h : Chain s) (hcur : CurDenotes s)
    (hend : s.cur = none → s.position = s.capacity) : Lagging s := by
  refine ⟨h, fun k hk => ?_, hend⟩
  by_cases hlt : s.position < s.capacity
  · rw [hcur hlt, Option.some.injEq] at hk
    exact hk.ge
  · have hfull : s.position = s.nodes.length * s.baseSize := by
      have := h.position_le
      have := h.size_le
      have := h.capacity_eq
      omega
    rw [hfull, Nat.mul_div_cancel _ h.base_pos]
    exact (h.cur_valid k hk).le

/-- The state after `n` bytes have been read from node `k` on. -/
def ByteArray.readFromNode (s : ByteArray) (k n : Nat) : ByteArray :=
  { s with
    cur := if s.start k + n < s.capacity then some ((s.start k + n) / s.baseSize) else none
    position := s.position + n }

theorem read_eq (h : Lagging s) {k n : Nat} (hk : s.cur = some k) (hpos : 0 < n)
    (hn : n ≤ s.getReadSize) :
    s.read n = .ok (slice s.nodes.flatten (s.start k) n, s.readFromNode k n) := by
  have hc := h.chain
  have hroom : s.position + n ≤ s.size := by
    unfold ByteArray.getReadSize at hn
    omega
  have hfits := h.fits hk (hroom.trans hc.size_le)
  unfold ByteArray.read
  rw [if_neg (by omega), hk, deref_some (hc.cur_valid k hk)]
  simp only [bind, Except.bind, pure, Except.pure]
  rw [hc.block _ (List.getElem_mem _),
    readLoop_spec hc.base_pos hc.block n k _ n hc.mod_lt hpos (Nat.le_refl n) hfits]
  simp only [← hc.capacity_eq, ByteArray.readFromNode, ByteArray.start]
  rfl

theorem Lagging.readFromNode (h : Lagging s) {k n : Nat} (hk : s.cur = some k)
    (hn : s.position + n ≤ s.size) : Lagging (s.readFromNode k n) := by
  have hc := h.chain
  have hle := hc.size_le
  have hfits := h.fits hk (hn.trans hle)
  have hback := Nat.mul_le_mul_right s.baseSize (h.behind k hk)
  have hdm := Nat.div_add_mod' s.position s.baseSize
  refine ⟨⟨hc.base_pos, hc.block, hc.capacity_eq, hc.nodes_pos, hn, hle, fun i hi => ?_⟩,
    fun i hi => ?_, fun hnone => ?_⟩
  · simp only [ByteArray.readFromNode] at hi
    split at hi
    · next hlt =>
      cases hi
      exact (Nat.div_lt_iff_lt_mul hc.base_pos).mpr (hc.capacity_eq ▸ hlt)
    · cases hi
  · simp only [ByteArray.readFromNode] at hi
    split at hi
    · cases hi
      refine Nat.div_le_div_right ?_
      simp only [ByteArray.readFromNode, ByteArray.start]
      omega
    · cases hi
  · simp only [ByteArray.readFromNode, ite_eq_right_iff, reduceCtorEq, imp_false,
      Nat.not_lt] at hnone
    simp only [ByteArray.readFromNode]
    rw [ByteArray.start] at hnone
    omega

/-- A read consumes the visible bytes. -/
theorem read_visible (h : Lagging s) {n : Nat} (hpos : 0 < n) (hn : n ≤ s.getReadSize) :
    ∃ t, s.read n = .ok (s.visible.take n, t) ∧ Lagging t ∧ t.visible = s.visible.drop n ∧
      t.getReadSize = s.getReadSize - n ∧ t.position = s.position + n ∧ t.endian = s.endian := by
  have hc := h.chain
  have hroom : s.position + n ≤ s.size := by
    unfold ByteArray.getReadSize at hn
    omega
  obtain ⟨k, hk⟩ := h.cur_some (show s.position < s.capacity by have := hc.size_le; omega)
  have hsize : (s.readFromNode k n).getReadSize = s.getReadSize - n := by
    simp only [ByteArray.readFromNode, ByteArray.getReadSize]
    omega
  refine ⟨_, ?_, h.readFromNode hk hroom, ?_, hsize, rfl, rfl⟩
  · rw [read_eq h hk hpos hn, ByteArray.visible, hk]
    simp only [slice, List.take_take, Nat.min_eq_left hn]
  · have hvisible : s.visible.drop n =
        slice s.nodes.flatten (s.start k + n) (s.getReadSize - n) := by
      rw [ByteArray.visible, hk]
      simp only [slice, List.drop_take, List.drop_drop]
    have hlast := h.fits (n := s.getReadSize) hk (by
      have := hc.size_le
      have := hc.position_le
      rw [ByteArray.getReadSize]
      omega)
    rw [hvisible, ByteArray.visible, hsize]
    by_cases hlt : s.start k + n < s.capacity
    · have hcur : (s.readFromNode k n).cur = some ((s.start k + n) / s.baseSize) := if_pos hlt
      -- the place in the block of `m_cur` is the place in the block of the cursor
      have hmod : (s.position + n) % s.baseSize = (s.start k + n) % s.baseSize := by
        rw [ByteArray.start, Nat.add_assoc, Nat.mul_add_mod', Nat.mod_add_mod]
      have hstart : (s.readFromNode k n).start ((s.start k + n) / s.baseSize) = s.start k + n := by
        rw [ByteArray.start]
        simp only [ByteArray.readFromNode]
        rw [hmod, Nat.div_add_mod']
      rw [hcur]
      simp only [hstart]
      rfl
    · have hcur : (s.readFromNode k n).cur = none := if_neg hlt
      have hzero : s.getReadSize - n = 0 := by
        rw [← hc.capacity_eq] at hlast
        omega
      rw [hcur, hzero]
      simp [slice]

theorem length_visible (h : Lagging s) : s.visible.length = s.getReadSize := by
  have hc := h.chain
  rw [ByteArray.visible]
  cases hk : s.cur with
  | none =>
    have := h.atEnd hk
    have := hc.size_le
    simp only [List.length_nil, ByteArray.getReadSize]
    omega
  | some k =>
    apply length_slice
    rw [Blocks.length_flatten hc.block]
    refine h.fits hk ?_
    have := hc.size_le
    have := hc.position_le
    rw [ByteArray.getReadSize]
    omega

/-- Where room is made, `m_cur` is a node. -/
theorem addCapacity_lagging (h : Lagging s) {size : Nat} (hsize : 0 < size)
    (heap : Nat → UInt8) :
    ∃ k t, s.addCapacity size heap = t ∧ Lagging t ∧ t.cur = some k ∧
      t.position + size ≤ t.capacity := by
  have hc := h.chain
  have hdm := Nat.div_add_mod' s.position s.baseSize
  obtain ⟨fresh, hadd, hfresh, hroom, -⟩ := addCapacity_eq hc hsize heap
  obtain ⟨k, hk, hle⟩ : ∃ k, (if s.position < s.capacity then s.cur
      else some (s.position / s.baseSize)) = some k ∧ k ≤ s.position / s.baseSize := by
    split
    · next hlt =>
      obtain ⟨k, hk⟩ := h.cur_some hlt
      exact ⟨k, hk, h.behind k hk⟩
    · exact ⟨_, rfl, Nat.le_refl _⟩
  have hin : s.position / s.baseSize < s.nodes.length + fresh.length := by
    refine block_lt s.baseSize (s.position % s.baseSize) ?_
    rw [Nat.add_mul, ← hc.capacity_eq]
    omega
  rw [hk] at hadd
  refine ⟨k, _, hadd, ⟨hc.append hfresh (by omega), fun i hi => ?_, fun hnone => ?_⟩, rfl, hroom⟩
  · cases hi
    exact hle
  · cases hnone

theorem write_lagging (h : Lagging s) (buf : List UInt8) (heap : Nat → UInt8) :
    ∃ t, s.write buf heap = .ok t ∧ Lagging t := by
  rcases Nat.eq_zero_or_pos buf.length with hzero | hpos
  · exact ⟨s, by rw [ByteArray.write, if_pos hzero], h⟩
  · obtain ⟨k, u, hadd, hu, hk, hroom⟩ := addCapacity_lagging h hpos heap
    have hc := hu.chain
    have hfits := hu.fits hk hroom
    obtain ⟨ns, hrun, -, hlen, hblock⟩ := writeLoop_spec hc.base_pos buf.length u k
      (u.position % u.baseSize) buf hc.block hk hc.mod_lt (List.ne_nil_of_length_pos hpos)
      (Nat.le_refl _) hfits
    have hback := Nat.mul_le_mul_right u.baseSize (hu.behind k hk)
    have hdm := Nat.div_add_mod' u.position u.baseSize
    -- the last byte written is in no later node than the cursor behind it
    have hlast : (k * u.baseSize + u.position % u.baseSize + buf.length - 1) / u.baseSize ≤
        (u.position + buf.length) / u.baseSize := Nat.div_le_div_right (by omega)
    have hin : (k * u.baseSize + u.position % u.baseSize + buf.length - 1) / u.baseSize <
        ns.length := by
      rw [Nat.div_lt_iff_lt_mul hc.base_pos, hlen]
      rw [ByteArray.start] at hfits
      omega
    refine ⟨{ u with
      nodes := ns
      position := u.position + buf.length
      cur := some ((k * u.baseSize + u.position % u.baseSize + buf.length - 1) / u.baseSize)
      size := max u.size (u.position + buf.length) }, ?_, ?_, ?_, ?_⟩
    · unfold ByteArray.write
      rw [if_neg (by omega), hadd]
      simp only []
      rw [hk, deref_some (hc.cur_valid k hk)]
      simp only [bind, Except.bind, pure, Except.pure]
      rw [hc.block _ (List.getElem_mem _), hrun]
      simp only []
      by_cases hgrow : u.size < u.position + buf.length
      · rw [if_pos hgrow, Nat.max_eq_right hgrow.le]
      · rw [if_neg hgrow, Nat.max_eq_left (Nat.le_of_not_lt hgrow)]
    · refine ⟨hc.base_pos, hblock, ?_, ?_, Nat.le_max_right _ _, ?_, fun i hi => ?_⟩
      · simp only [hlen, hc.capacity_eq]
      · simp only [hlen, hc.nodes_pos]
      · exact Nat.max_le.mpr ⟨hc.size_le, hroom⟩
      · cases hi
        exact hin
    · intro i hi
      cases hi
      exact hlast
    · intro hnone
      cases hnone

theorem getWriteBuffers_lagging (h : Lagging s) {len : Nat} (hpos : 0 < len)
    (heap : Nat → UInt8) :
    ∃ k iovs t, s.getWriteBuffers len heap = .ok (iovs, t) ∧ Lagging t ∧
      Segments t.baseSize t.nodes iovs (t.start k) len ∧
      t.start k + len ≤ t.nodes.length * t.baseSize ∧ t.position + len ≤ t.capacity := by
  obtain ⟨k, u, hadd, hu, hk, hroom⟩ := addCapacity_lagging h hpos heap
  have hc := hu.chain
  have hfits := hu.fits hk hroom
  obtain ⟨iovs, hrun, hsegments⟩ := bufferLoop_spec hc.base_pos hc.block len k
    (u.position % u.baseSize) len hc.mod_lt hpos (Nat.le_refl _) hfits
  refine ⟨k, iovs, u, ?_, hu, hsegments, hfits, hroom⟩
  unfold ByteArray.getWriteBuffers
  rw [if_neg (by omega), hadd]
  simp only []
  rw [hk, deref_some (hc.cur_valid k hk)]
  simp only [bind, Except.bind, pure, Except.pure]
  rw [hc.block _ (List.getElem_mem _), hrun]

theorem setPosition_lagging (h : Chain s) {v : Nat} (hv : v ≤ s.capacity) :
    ∃ t, s.setPosition v = .ok t ∧ Lagging t ∧ CurDenotes t ∧ t.nodes = s.nodes ∧
      t.position = v ∧ t.size = max s.size v ∧ t.capacity = s.capacity ∧
      t.baseSize = s.baseSize := by
  have hcur : CurDenotes { s with
      position := v
      size := max s.size v
      cur := if v < s.capacity then some (v / s.baseSize) else none } := fun hlt => if_pos hlt
  refine ⟨_, setPosition_spec h hv, .of_denotes (h.setPosition hv) hcur fun hnone => ?_, hcur,
    rfl, rfl, rfl, rfl, rfl⟩
  simp only [ite_eq_right_iff, reduceCtorEq, imp_false, Nat.not_lt] at hnone
  exact Nat.le_antisymm hv hnone

theorem receive_lagging (h : Lagging s) (length : Nat) (data : List UInt8)
    (heap : Nat → UInt8) : ∃ t, s.receive length data heap = .ok t ∧ Lagging t := by
  rcases Nat.eq_zero_or_pos length with rfl | hpos
  · exact ⟨s, rfl, h⟩
  · obtain ⟨k, iovs, u, hrun, hu, hsegments, hfits, hroom⟩ := getWriteBuffers_lagging h hpos heap
    have hc := hu.chain
    have hdata : (data.take length).length ≤ length := List.length_take_le ..
    rw [ByteArray.receive, hrun]
    simp only [bind, Except.bind, pure, Except.pure]
    generalize data.take length = data at hdata
    obtain ⟨-, hblock, hcount⟩ := hsegments.scatter_eq hc.block hdata hfits
    have hchain : Chain { u with nodes := scatter u.nodes iovs data } := {
      base_pos := hc.base_pos
      block := hblock
      capacity_eq := by simp only [hcount]; exact hc.capacity_eq
      nodes_pos := by simp only [hcount]; exact hc.nodes_pos
      position_le := hc.position_le
      size_le := hc.size_le
      cur_valid := by simp only [hcount]; exact hc.cur_valid }
    by_cases hsome : 0 < data.length
    · rw [if_pos hsome]
      obtain ⟨t, ht, hlag, -⟩ := setPosition_lagging hchain (v := u.position + data.length)
        (by simp only []; omega)
      exact ⟨t, ht, hlag⟩
    · rw [if_neg hsome]
      exact ⟨_, rfl, hchain, hu.behind, hu.atEnd⟩

/-! ## Runs -/

/-- The operations that change an array: those that the typed functions, the strings and the files
    are made of, and receiving into its write buffers. -/
inductive Update where
  | clear
  | setIsLittleEndian (val : Bool)
  | write (buf : List UInt8)
  | read (size : Nat)
  | setPosition (v : Nat)
  | getWriteBuffers (len : Nat)
  | receive (length : Nat) (data : List UInt8)

def ByteArray.update (s : ByteArray) (heap : Nat → UInt8) : Update → Except Error ByteArray
  | .clear => .ok s.clear
  | .setIsLittleEndian val => .ok (s.setIsLittleEndian val)
  | .write buf => s.write buf heap
  | .read size => (s.read size).map Prod.snd
  | .setPosition v => s.setPosition v
  | .getWriteBuffers len => (s.getWriteBuffers len heap).map Prod.snd
  | .receive length data => s.receive length data heap

/-- A fresh array; an exception leaves it as it is, and a null node ends the run. -/
def updateMachine (base : Nat) : Machine ByteArray (Update × (Nat → UInt8)) where
  init s := ∃ heap, s = ByteArray.new base heap
  step s a :=
    match s.update a.2 a.1 with
    | .ok t => some t
    | .error .outOfRange => some s
    | .error _ => none

/-- What a read of no bytes does. -/
theorem read_none (h : Chain s) :
    s.read 0 = if s.cur = none then .error .nullNode else .ok ([], s) := by
  unfold ByteArray.read
  rw [if_neg (Nat.not_lt_zero _)]
  cases hk : s.cur with
  | none => rfl
  | some k =>
    rw [deref_some (h.cur_valid k hk), if_neg (by simp)]
    simp only [bind, Except.bind, pure, Except.pure, ByteArray.readLoop, Nat.add_zero]
    rw [← hk]

theorem update_lagging (h : Lagging s) {heap : Nat → UInt8} {op : Update}
    (hstep : s.update heap op = .ok t) : Lagging t := by
  cases op with
  | clear =>
    cases hstep
    refine ⟨h.chain.clear, fun k hk => ?_, fun hnone => ?_⟩
    · cases hk
      exact Nat.zero_le _
    · cases hnone
  | setIsLittleEndian val =>
    cases hstep
    have hc := h.chain
    exact ⟨⟨hc.base_pos, hc.block, hc.capacity_eq, hc.nodes_pos, hc.position_le, hc.size_le,
      hc.cur_valid⟩, h.behind, h.atEnd⟩
  | write buf =>
    obtain ⟨u, hu, hlag⟩ := write_lagging h buf heap
    cases hu.symm.trans hstep
    exact hlag
  | read size =>
    rw [ByteArray.update] at hstep
    by_cases hsize : size ≤ s.getReadSize
    · rcases Nat.eq_zero_or_pos size with rfl | hpos
      · rw [read_none h.chain] at hstep
        split at hstep
        · cases hstep
        · cases hstep
          exact h
      · obtain ⟨u, hu, hlag, -⟩ := read_visible h hpos hsize
        rw [hu] at hstep
        cases hstep
        exact hlag
    · rw [ByteArray.read, if_pos (by omega)] at hstep
      cases hstep
  | setPosition v =>
    by_cases hv : v ≤ s.capacity
    · obtain ⟨u, hu, hlag, -⟩ := setPosition_lagging h.chain hv
      cases hu.symm.trans hstep
      exact hlag
    · rw [ByteArray.update, ByteArray.setPosition, if_pos (by omega)] at hstep
      cases hstep
  | getWriteBuffers len =>
    rw [ByteArray.update] at hstep
    rcases Nat.eq_zero_or_pos len with rfl | hpos
    · cases hstep
      exact h
    · obtain ⟨-, iovs, u, hu, hlag, -⟩ := getWriteBuffers_lagging h hpos heap
      rw [hu] at hstep
      cases hstep
      exact hlag
  | receive length data =>
    obtain ⟨u, hu, hlag⟩ := receive_lagging h length data heap
    cases hu.symm.trans hstep
    exact hlag

theorem lagging_of_reach {base : Nat} (hbase : 0 < base) (h : (updateMachine base).Reachable s) :
    Lagging s := by
  refine h.invariant (P := Lagging) ?_ ?_
  · rintro s ⟨heap, rfl⟩
    exact .new hbase heap
  · intro s a t hs _ hstep
    simp only [updateMachine] at hstep
    split at hstep
    · next hok =>
      cases hstep
      exact update_lagging hs hok
    · cases hstep
      exact hs
    · cases hstep

/-- Six bytes written in blocks of four, and the cursor moved. -/
def sixBytes (position : Nat) : ByteArray :=
  ((updateMachine 4).run (.new 4 fun _ => 0)
    [(.write [1, 2, 3, 4, 5, 6], fun _ => 0), (.setPosition position, fun _ => 0)]).getD
    (.new 4 fun _ => 0)

theorem sixBytes_reachable (position : Nat) : (updateMachine 4).Reachable (sixBytes position) := by
  rw [sixBytes]
  cases hrun : (updateMachine 4).run (.new 4 fun _ => 0)
    [(.write [1, 2, 3, 4, 5, 6], fun _ => 0), (.setPosition position, fun _ => 0)] with
  | none => exact .init ⟨_, rfl⟩
  | some t => exact .of_run _ ⟨_, rfl⟩ hrun

end CppServerFramework.Socket

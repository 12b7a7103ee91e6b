import CppServerFramework.Socket.ByteArrayFile
import CppServerFramework.Socket.ByteArrayPositioned

/-!
# The null node

`m_cur` is null where the cursor is at the end of the chain and nothing has been written there.
`Call.Safe` says for each operation when it finds a node wherever it uses one: always for those that
make room, move the cursor or return early when there is nothing to do.
-/

namespace CppServerFramework.Socket
open Blocks

/-- The operations that do not change the array. -/
inductive Query where
  | readAt (size position : Nat)
  | getReadBuffers (len : Nat)
  | getReadBuffersAt (len position : Nat)
  | toString
  | writeToFile (opened : Bool)

def ByteArray.query (s : ByteArray) : Query → Except Error Unit
  | .readAt size position => (s.readAt size position).map fun _ => ()
  | .getReadBuffers len => (s.getReadBuffers len).map fun _ => ()
  | .getReadBuffersAt len position => (s.getReadBuffersAt len position).map fun _ => ()
  | .toString => s.toString.map fun _ => ()
  | .writeToFile opened => (s.writeToFile opened).map fun _ => ()

/-- A call of a public operation. -/
inductive Call where
  | update (op : Update)
  | query (op : Query)

/-- Every node that the call uses is a node of the chain. -/
def NullSafe (s : ByteArray) (heap : Nat → UInt8) : Call → Prop
  | .update op => s.update heap op ≠ .error .nullNode
  | .query op => s.query op ≠ .error .nullNode

/-- The bytes asked for are in the chain, counted from where the operation begins, or it does not
    begin.  A read of no bytes looks at the node of `m_cur` too, and a file is written as `FileFits`
    says. -/
def Call.Safe (s : ByteArray) : Call → Prop
  | .update (.read size) => size = 0 → s.cur ≠ none
  | .update _ => True
  | .query (.readAt size position) => s.remaining position < size ∨
      ∃ k, s.cur = some k ∧ (size = 0 ∨ k * s.baseSize + position % s.baseSize + size ≤ s.capacity)
  | .query (.getReadBuffersAt len position) => min len s.getReadSize = 0 ∨
      position + min len s.getReadSize ≤ s.capacity
  | .query (.writeToFile opened) => opened = true →
      FileFits s.baseSize (s.position % s.baseSize) s.getReadSize
  | .query _ => True

variable {s : ByteArray}

theorem map_null_iff {α : Type} {r : Except Error α} :
    (r.map fun _ => ()) = .error .nullNode ↔ r = .error .nullNode := by
  cases r <;> simp [Except.map]

theorem read_null_iff (h : Lagging s) (n : Nat) :
    s.read n = .error .nullNode ↔ n = 0 ∧ s.cur = none := by
  rcases Nat.eq_zero_or_pos n with rfl | hpos
  · rw [read_none h.chain]
    split <;> simp [*]
  · refine iff_of_false ?_ (by omega)
    by_cases hn : n ≤ s.getReadSize
    · obtain ⟨t, hread, -⟩ := read_visible h hpos hn
      rw [hread]
      simp
    · rw [ByteArray.read, if_pos (by omega)]
      simp

theorem readAt_null_iff (h : Chain s) (size position : Nat) :
    s.readAt size position = .error .nullNode ↔ ¬(s.remaining position < size ∨
      ∃ k, s.cur = some k ∧
        (size = 0 ∨ k * s.baseSize + position % s.baseSize + size ≤ s.capacity)) := by
  have hmod := Nat.mod_lt position h.base_pos
  unfold ByteArray.readAt
  by_cases hbeyond : s.remaining position < size
  · rw [if_pos hbeyond]
    simp [hbeyond]
  rw [if_neg hbeyond, or_iff_right hbeyond]
  cases hk : s.cur with
  | none =>
    refine iff_of_true rfl ?_
    rintro ⟨k, hsome, -⟩
    cases hsome
  | some k =>
    have hlt := h.cur_valid k hk
    have hexists : (∃ i, some k = some i ∧
          (size = 0 ∨ i * s.baseSize + position % s.baseSize + size ≤ s.capacity)) ↔
        (size = 0 ∨ k * s.baseSize + position % s.baseSize + size ≤ s.capacity) := by
      constructor
      · rintro ⟨i, hi, hfits⟩
        cases hi
        exact hfits
      · exact fun hfits => ⟨k, rfl, hfits⟩
    rw [deref_some hlt, hexists, h.capacity_eq]
    simp only [bind, Except.bind, pure, Except.pure]
    rw [h.block _ (List.getElem_mem _)]
    rcases Nat.eq_zero_or_pos size with rfl | hpos
    · simp [ByteArray.readLoop]
    · by_cases hfits : k * s.baseSize + position % s.baseSize + size ≤ s.nodes.length * s.baseSize
      · rw [readLoop_spec h.base_pos h.block size k _ size hmod hpos (Nat.le_refl _) hfits]
        simp [hfits]
      · rw [readLoop_beyond h.base_pos h.block size k _ size hmod hlt (Nat.le_refl _) (by omega)]
        simp only [true_iff]
        omega

/-- The walk from the root does not get behind the last node. -/
theorem skip_beyond {nodes : List (List UInt8)} {count i : Nat} (hi : i < nodes.length)
    (h : nodes.length ≤ i + count) :
    skip nodes count (some i) = .ok none ∨ skip nodes count (some i) = .error .nullNode := by
  induction count generalizing i with
  | zero => omega
  | succ count ih =>
    rw [skip, deref_some hi]
    simp only [bind, Except.bind]
    by_cases hnext : i + 1 < nodes.length
    · rw [next_of_lt hnext]
      exact ih hnext (by omega)
    · rw [next, if_neg hnext]
      cases count with
      | zero => exact .inl rfl
      | succ count => exact .inr rfl

theorem getReadBuffersAt_null_iff (h : Chain s) (len position : Nat) :
    s.getReadBuffersAt len position = .error .nullNode ↔
      ¬(min len s.getReadSize = 0 ∨ position + min len s.getReadSize ≤ s.capacity) := by
  rcases Nat.eq_zero_or_pos (min len s.getReadSize) with hzero | hpos
  · rw [getReadBuffersAt_none hzero]
    simp [hzero]
  rw [or_iff_right (by omega)]
  by_cases hfits : position + min len s.getReadSize ≤ s.capacity
  · obtain ⟨iovs, hrun, -⟩ := getReadBuffersAt_inside h hpos hfits
    rw [hrun]
    simp [hfits]
  · refine iff_of_true ?_ hfits
    have hmin : (if s.getReadSize < len then s.getReadSize else len) = min len s.getReadSize := by
      split <;> omega
    have hcap := h.capacity_eq
    have hdm := Nat.div_add_mod' position s.baseSize
    unfold ByteArray.getReadBuffersAt
    simp only [hmin]
    generalize min len s.getReadSize = n at hpos hfits
    rw [if_neg (by omega)]
    by_cases hk : position / s.baseSize < s.nodes.length
    · rw [skip_eq (by omega), Nat.zero_add]
      simp only [bind, Except.bind, pure, Except.pure]
      rw [deref_some hk]
      simp only []
      rw [h.block _ (List.getElem_mem hk), bufferLoop_beyond h.base_pos h.block n _ _ n
        (Nat.mod_lt _ h.base_pos) hk (Nat.le_refl _) (by omega)]
    · have hcount : s.nodes.length ≤ 0 + position / s.baseSize := by omega
      rcases skip_beyond h.nodes_pos hcount with hrun | hrun <;>
      · rw [hrun]
        rfl

theorem getReadBuffers_ok (h : Lagging s) (len : Nat) :
    ∃ iovs, s.getReadBuffers len = .ok (iovs, min len s.getReadSize) := by
  have hc := h.chain
  have hmin : (if s.getReadSize < len then s.getReadSize else len) = min len s.getReadSize := by
    split <;> omega
  have hroom : s.position + min len s.getReadSize ≤ s.capacity := by
    have := hc.position_le
    have := hc.size_le
    rw [ByteArray.getReadSize]
    omega
  unfold ByteArray.getReadBuffers
  simp only [hmin]
  generalize min len s.getReadSize = n at hroom
  rcases Nat.eq_zero_or_pos n with rfl | hpos
  · exact ⟨[], rfl⟩
  · obtain ⟨k, hk⟩ := h.cur_some (by omega)
    obtain ⟨iovs, hrun, -⟩ := bufferLoop_spec hc.base_pos hc.block n k (s.position % s.baseSize) n
      hc.mod_lt hpos (Nat.le_refl _) (h.fits hk hroom)
    refine ⟨iovs, ?_⟩
    rw [if_neg (by omega), hk, deref_some (hc.cur_valid k hk)]
    simp only [bind, Except.bind, pure, Except.pure]
    rw [hc.block _ (List.getElem_mem _), hrun]

theorem toString_ok (h : Lagging s) : ∃ bytes, s.toString = .ok bytes := by
  rw [ByteArray.toString]
  split
  · exact ⟨_, rfl⟩
  · next hleft =>
    obtain ⟨k, hk⟩ := h.cur_some (by
      have := h.chain.size_le
      rw [ByteArray.getReadSize] at hleft
      omega)
    exact ⟨_, readAt_eq h hk (Nat.le_refl _)⟩

theorem update_safe_iff (h : Lagging s) (heap : Nat → UInt8) (op : Update) :
    NullSafe s heap (.update op) ↔ Call.Safe s (.update op) := by
  cases op with
  | clear | setIsLittleEndian val =>
    exact iff_of_true (by simp [NullSafe, ByteArray.update]) trivial
  | write buf =>
    obtain ⟨t, hrun, -⟩ := write_lagging h buf heap
    exact iff_of_true (by simp [NullSafe, ByteArray.update, hrun]) trivial
  | read size =>
    have hmap : (s.read size).map Prod.snd = .error .nullNode ↔ s.read size = .error .nullNode := by
      cases s.read size <;> simp [Except.map]
    rw [NullSafe, ByteArray.update, ne_eq, hmap, read_null_iff h, not_and, Call.Safe]
  | setPosition v =>
    refine iff_of_true ?_ trivial
    rw [NullSafe, ByteArray.update]
    by_cases hv : v ≤ s.capacity
    · rw [setPosition_spec h.chain hv]
      simp
    · rw [ByteArray.setPosition, if_pos (by omega)]
      simp
  | getWriteBuffers len =>
    refine iff_of_true ?_ trivial
    rw [NullSafe, ByteArray.update]
    rcases Nat.eq_zero_or_pos len with rfl | hpos
    · simp [ByteArray.getWriteBuffers, Except.map]
    · obtain ⟨-, iovs, t, hrun, -⟩ := getWriteBuffers_lagging h hpos heap
      rw [hrun]
      simp [Except.map]
  | receive length data =>
    obtain ⟨t, hrun, -⟩ := receive_lagging h length data heap
    exact iff_of_true (by simp [NullSafe, ByteArray.update, hrun]) trivial

/-- A file that does not fit needs a node behind the last one, at least where the place in a block
    is an `int`. -/
theorem writeToFile_null (h : Lagging s) (hsmall : s.baseSize ≤ 2 ^ 31)
    (hfits : ¬FileFits s.baseSize (s.position % s.baseSize) s.getReadSize) :
    s.writeToFile true = .error .nullNode := by
  have hmod := h.chain.mod_lt
  rw [FileFits] at hfits
  rw [ByteArray.writeToFile, if_pos rfl]
  simp only []
  rw [fileLoop_null hsmall (by omega) (by omega) (by omega)]
  rfl

theorem query_safe_iff (h : Lagging s) (heap : Nat → UInt8) (op : Query)
    (hsmall : op = .writeToFile true → s.baseSize ≤ 2 ^ 31) :
    NullSafe s heap (.query op) ↔ Call.Safe s (.query op) := by
  cases op with
  | readAt size position =>
    rw [NullSafe, ByteArray.query, ne_eq, map_null_iff, readAt_null_iff h.chain, not_not, Call.Safe]
  | getReadBuffers len =>
    obtain ⟨iovs, hrun⟩ := getReadBuffers_ok h len
    exact iff_of_true (by simp [NullSafe, ByteArray.query, hrun, Except.map]) trivial
  | getReadBuffersAt len position =>
    rw [NullSafe, ByteArray.query, ne_eq, map_null_iff, getReadBuffersAt_null_iff h.chain, not_not,
      Call.Safe]
  | toString =>
    obtain ⟨bytes, hrun⟩ := toString_ok h
    exact iff_of_true (by simp [NullSafe, ByteArray.query, hrun, Except.map]) trivial
  | writeToFile opened =>
    rw [NullSafe, ByteArray.query, ne_eq, map_null_iff, Call.Safe]
    cases opened with
    | false => exact iff_of_true (by simp [ByteArray.writeToFile]) nofun
    | true =>
      constructor
      · intro hsafe _
        by_contra hfits
        exact hsafe (writeToFile_null h (hsmall rfl) hfits)
      · intro hfits
        obtain ⟨k, iovs, hrun, -⟩ := writeToFile_of_fits h (hfits rfl)
        rw [hrun]
        simp

/-- A file that fits is written without a null node, whatever the blocks. -/
theorem query_safe (h : Lagging s) (heap : Nat → UInt8) (op : Query)
    (hsafe : Call.Safe s (.query op)) : NullSafe s heap (.query op) := by
  by_cases hop : op = .writeToFile true
  · subst hop
    obtain ⟨k, iovs, hrun, -⟩ := writeToFile_of_fits h (hsafe rfl)
    rw [NullSafe, ByteArray.query, hrun]
    simp [Except.map]
  · exact (query_safe_iff h heap op fun heq => absurd heq hop).mpr hsafe

/-- In every reachable state, the calls that are safe use no null node, and the others do, except
    that a file of blocks of more than `2 ^ 31` bytes can end otherwise. -/
theorem null_safe_iff {base : Nat} (hbase : 0 < base) (h : (updateMachine base).Reachable s)
    (heap : Nat → UInt8) (c : Call) :
    (Call.Safe s c → NullSafe s heap c) ∧
      (NullSafe s heap c → Call.Safe s c ∨
        c = .query (.writeToFile true) ∧ 2 ^ 31 < s.baseSize) := by
  have hlag := lagging_of_reach hbase h
  cases c with
  | update op =>
    have hiff := update_safe_iff hlag heap op
    exact ⟨hiff.mpr, fun hsafe => .inl (hiff.mp hsafe)⟩
  | query op =>
    refine ⟨query_safe hlag heap op, fun hsafe => ?_⟩
    by_cases hlarge : op = .writeToFile true ∧ 2 ^ 31 < s.baseSize
    · exact .inr ⟨congrArg Call.query hlarge.1, hlarge.2⟩
    · refine .inl ((query_safe_iff hlag heap op fun hop => ?_).mp hsafe)
      by_contra hnot
      exact hlarge ⟨hop, by omega⟩

theorem null_safe_file : NullSafe (sixBytes 1) (fun _ => 0) (.query (.writeToFile true)) :=
  (null_safe_iff (Nat.succ_pos 3) (sixBytes_reachable 1) (fun _ => 0)
    (.query (.writeToFile true))).1 fun _ => by decide

/-- At the end of the chain even nothing cannot be read.  Elsewhere it takes a file that does not
    fit, or a position that is not the cursor's. -/
theorem null_used :
    (∀ position, (updateMachine 4).Reachable (sixBytes position)) ∧
      ¬NullSafe (sixBytes 8) (fun _ => 0) (.update (.read 0)) ∧
      ¬NullSafe (sixBytes 8) (fun _ => 0) (.query (.readAt 0 8)) ∧
      ¬NullSafe (sixBytes 0) (fun _ => 0) (.query (.readAt 9 7)) ∧
      ¬NullSafe (sixBytes 0) (fun _ => 0) (.query (.getReadBuffersAt 6 4)) ∧
      ¬NullSafe (sixBytes 5) (fun _ => 0) (.query (.writeToFile true)) :=
  ⟨sixBytes_reachable, fun h => h rfl, fun h => h rfl, fun h => h rfl, fun h => h rfl,
    fun h => h rfl⟩

end CppServerFramework.Socket

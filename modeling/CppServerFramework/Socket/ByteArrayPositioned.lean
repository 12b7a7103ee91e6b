import CppServerFramework.Socket.ByteArrayReach

/-!
# Access at a position

`read(buf, size, position)` and `getReadBuffers(buffers, len, position)` look as if they did not
use the cursor.  The first one begins at `m_cur` and the second one takes what the cursor has left
for its length, so that both are right only at the cursor's own position.
-/

namespace CppServerFramework.Socket
open Blocks

/-- `cur = cur->next`, `count` times. -/
def skip (nodes : List (List UInt8)) : Nat → Option Nat → Except Error (Option Nat)
  | 0, cur => .ok cur
  | count + 1, cur => do
    let (k, _) ← deref nodes cur
    skip nodes count (next nodes k)

namespace ByteArray

/-- `ByteArray::getReadBuffers(buffers, len, position)` (`bytearray.cpp:601-636`): the segments and
    the size that it returns. -/
def getReadBuffersAt (s : ByteArray) (len position : Nat) : Except Error (List Iovec × Nat) :=
  let len := if s.getReadSize < len then s.getReadSize else len
  if len = 0 then .ok ([], 0)
  else do
    let npos := position % s.baseSize
    let cur ← skip s.nodes (position / s.baseSize) (some 0)
    let (_, node) ← deref s.nodes cur
    let iovs ← bufferLoop s.nodes len cur npos (node.length - npos) len
    return (iovs, len)

/-- `setPosition(position)` and `read(buf, size)`. -/
def seekAndRead (s : ByteArray) (size position : Nat) : Except Error (List UInt8) := do
  let s ← s.setPosition position
  let (bytes, _) ← s.read size
  return bytes

end ByteArray

/-- At a position, reading gives what the cursor would give there, and the segments are those of
    the content from there on. -/
structure Positioned (s : ByteArray) (position : Nat) : Prop where
  reads : ∀ n ≤ s.size - position, ∃ bytes,
    s.readAt n position = .ok bytes ∧ s.seekAndRead n position = .ok bytes
  refuses : ∀ n > s.size - position, s.readAt n position = .error .outOfRange
  buffers : ∀ len, ∃ iovs,
    s.getReadBuffersAt len position = .ok (iovs, min len (s.size - position)) ∧
    Segments s.baseSize s.nodes iovs position (min len (s.size - position)) ∧
    gather s.nodes iovs = slice s.content position (min len (s.size - position))

/-- The position is that of the cursor and inside the chain, and the bytes from the node of `m_cur`
    on are those from the node of the cursor on, as they are where `m_cur` is that node. -/
structure AtCursor (s : ByteArray) (position : Nat) : Prop where
  same : position = s.position
  inside : position < s.capacity
  shown : s.visible = slice s.content s.position s.getReadSize

variable {s : ByteArray} {position : Nat}

theorem skip_eq {nodes : List (List UInt8)} {count i : Nat} (h : i + count < nodes.length) :
    skip nodes count (some i) = .ok (some (i + count)) := by
  induction count generalizing i with
  | zero => rfl
  | succ count ih =>
    rw [skip, deref_some (by omega)]
    simp only [bind, Except.bind]
    rw [next_of_lt (by omega), ih (by omega)]
    congr 2
    omega

/-- The segments of a position inside the chain: what the cursor has left decides how many bytes
    there are. -/
theorem getReadBuffersAt_inside (h : Chain s) {len : Nat} (hlen : 0 < min len s.getReadSize)
    (hfits : position + min len s.getReadSize ≤ s.capacity) :
    ∃ iovs, s.getReadBuffersAt len position = .ok (iovs, min len s.getReadSize) ∧
      Segments s.baseSize s.nodes iovs position (min len s.getReadSize) := by
  have hmin : (if s.getReadSize < len then s.getReadSize else len) = min len s.getReadSize := by
    split <;> omega
  unfold ByteArray.getReadBuffersAt
  simp only [hmin]
  generalize min len s.getReadSize = n at hlen hfits
  have hdm := Nat.div_add_mod' position s.baseSize
  have hcap := h.capacity_eq
  have hk : position / s.baseSize < s.nodes.length :=
    block_lt s.baseSize (position % s.baseSize) (by omega)
  obtain ⟨iovs, hrun, hsegments⟩ := bufferLoop_spec h.base_pos h.block n (position / s.baseSize)
    (position % s.baseSize) n (Nat.mod_lt _ h.base_pos) hlen (Nat.le_refl n) (by omega)
  rw [hdm] at hsegments
  refine ⟨iovs, ?_, hsegments⟩
  rw [if_neg (by omega), skip_eq (by omega), Nat.zero_add]
  simp only [bind, Except.bind, pure, Except.pure]
  rw [deref_some hk]
  simp only []
  rw [h.block _ (List.getElem_mem hk), hrun]

theorem getReadBuffersAt_none {len : Nat} (hlen : min len s.getReadSize = 0) :
    s.getReadBuffersAt len position = .ok ([], 0) := by
  have hmin : (if s.getReadSize < len then s.getReadSize else len) = 0 := by
    split <;> omega
  unfold ByteArray.getReadBuffersAt
  simp only [hmin]
  rfl

/-- Whatever the position, no other size is returned. -/
theorem size_of_getReadBuffersAt {len size : Nat} {iovs : List Iovec}
    (h : s.getReadBuffersAt len position = .ok (iovs, size)) : size = min len s.getReadSize := by
  have hmin : (if s.getReadSize < len then s.getReadSize else len) = min len s.getReadSize := by
    split <;> omega
  unfold ByteArray.getReadBuffersAt at h
  simp only [hmin] at h
  split at h
  · next hzero =>
    cases h
    exact hzero.symm
  · simp only [bind, Except.bind, pure, Except.pure] at h
    split at h
    · cases h
    · split at h
      · cases h
      · split at h
        · cases h
        · cases h
          rfl

/-- Reading at a position begins at the node of `m_cur`, in the place of the position. -/
theorem readAt_eq (h : Lagging s) {k n : Nat} (hk : s.cur = some k) (hn : n ≤ s.getReadSize) :
    s.readAt n s.position = .ok (s.visible.take n) := by
  have hc := h.chain
  have hle := hc.position_le
  have hfits := h.fits (n := n) hk (by
    have := hc.size_le
    rw [ByteArray.getReadSize] at hn
    omega)
  unfold ByteArray.readAt
  rw [ByteArray.remaining, if_pos hle, if_neg (by rw [ByteArray.getReadSize] at hn; omega), hk,
    deref_some (hc.cur_valid k hk)]
  simp only [bind, Except.bind, pure, Except.pure]
  rw [hc.block _ (List.getElem_mem _)]
  have htake : s.visible.take n = slice s.nodes.flatten (s.start k) n := by
    rw [ByteArray.visible, hk]
    simp only [slice, List.take_take, Nat.min_eq_left hn]
  rw [htake]
  rcases Nat.eq_zero_or_pos n with rfl | hpos
  · simp [ByteArray.readLoop, slice]
  · rw [readLoop_spec hc.base_pos hc.block n k _ n hc.mod_lt hpos (Nat.le_refl n) hfits]
    rfl

/-- The cursor gives the content from a position inside the chain on. -/
theorem seekAndRead_eq (h : Chain s) {n : Nat} (hposition : position ≤ s.size)
    (hinside : position < s.capacity) (hn : n ≤ s.size - position) :
    s.seekAndRead n position = .ok (slice s.content position n) := by
  obtain ⟨t, hseek, ht, hcur, hnodes, htp, hts, hcap, hbase⟩ :=
    setPosition_lagging h (v := position) hinside.le
  rw [Nat.max_eq_left hposition] at hts
  have hsize : n ≤ t.getReadSize := by
    rw [ByteArray.getReadSize]
    omega
  rw [ByteArray.seekAndRead, hseek]
  simp only [bind, Except.bind, pure, Except.pure]
  rcases Nat.eq_zero_or_pos n with rfl | hpos
  · have hsome : t.cur ≠ none := fun hnone => by
      have := ht.atEnd hnone
      omega
    rw [read_none ht.chain, if_neg hsome]
    simp [slice]
  · rw [read_spec ht.chain hcur hpos hsize]
    simp only []
    rw [ByteArray.content, slice_take (by omega), hnodes, htp]

/-- At the end of the chain there is no node, even to read nothing. -/
theorem seekAndRead_end (h : Chain s) : s.seekAndRead 0 s.capacity = .error .nullNode := by
  obtain ⟨t, hseek, ht, -, -, htp, -, hcap, -⟩ := setPosition_lagging h (Nat.le_refl s.capacity)
  have hnone : t.cur = none := by
    rw [setPosition_spec h (Nat.le_refl _)] at hseek
    cases hseek
    exact if_neg (Nat.lt_irrefl _)
  rw [ByteArray.seekAndRead, hseek]
  simp only [bind, Except.bind]
  rw [read_none ht.chain, if_pos hnone]

theorem positioned_of_atCursor (h : Lagging s) (hat : AtCursor s position) :
    Positioned s position := by
  obtain ⟨rfl, hinside, hshown⟩ := hat
  have hc := h.chain
  have hle := hc.position_le
  obtain ⟨k, hk⟩ := h.cur_some hinside
  refine ⟨fun n hn => ?_, fun n hn => ?_, fun len => ?_⟩
  · refine ⟨_, readAt_eq h hk hn, ?_⟩
    rw [seekAndRead_eq hc hle hinside hn, hshown]
    simp only [slice, List.take_take, Nat.min_eq_left (show n ≤ s.getReadSize from hn)]
  · unfold ByteArray.readAt
    rw [ByteArray.remaining, if_pos hle, if_pos hn]
  · have hsize : s.size - s.position = s.getReadSize := rfl
    rw [hsize]
    rcases Nat.eq_zero_or_pos (min len s.getReadSize) with hzero | hpos
    · rw [hzero]
      exact ⟨[], getReadBuffersAt_none hzero, ⟨by simp, rfl⟩, by simp [gather, slice]⟩
    · have hroom : s.position + min len s.getReadSize ≤ s.size := by omega
      obtain ⟨iovs, hrun, hsegments⟩ :=
        getReadBuffersAt_inside hc hpos (hroom.trans hc.size_le)
      refine ⟨iovs, hrun, hsegments, ?_⟩
      rw [hsegments.gather_eq hc.block, ByteArray.content, slice_take hroom]

theorem atCursor_of_positioned (h : Lagging s) (hposition : position ≤ s.size)
    (hp : Positioned s position) : AtCursor s position := by
  have hc := h.chain
  have hle := hc.position_le
  -- a length that is not cut off shows what the cursor has left
  have hsame : position = s.position := by
    obtain ⟨iovs, hrun, -⟩ := hp.buffers s.size
    have hsize := size_of_getReadBuffersAt hrun
    rw [ByteArray.getReadSize] at hsize
    omega
  subst hsame
  have hinside : s.position < s.capacity := by
    refine Nat.lt_of_le_of_ne h.position_le fun hend => ?_
    obtain ⟨bytes, -, hseek⟩ := hp.reads 0 (Nat.zero_le _)
    rw [hend, seekAndRead_end hc] at hseek
    cases hseek
  obtain ⟨k, hk⟩ := h.cur_some hinside
  refine ⟨rfl, hinside, ?_⟩
  obtain ⟨bytes, hread, hseek⟩ := hp.reads s.getReadSize (Nat.le_refl _)
  rw [readAt_eq h hk (Nat.le_refl _)] at hread
  rw [seekAndRead_eq hc hle hinside (n := s.getReadSize) (Nat.le_refl _)] at hseek
  rw [← List.take_of_length_le (length_visible h).le, Except.ok.inj hread, Except.ok.inj hseek]

/-- In every reachable state, access at a position agrees with the cursor exactly at the position of
    the cursor, where `m_cur` shows the bytes of that position. -/
theorem positioned_iff {base : Nat} (hbase : 0 < base) (h : (updateMachine base).Reachable s)
    (hposition : position ≤ s.size) : Positioned s position ↔ AtCursor s position :=
  ⟨atCursor_of_positioned (lagging_of_reach hbase h) hposition,
    positioned_of_atCursor (lagging_of_reach hbase h)⟩

theorem positioned_sixBytes : Positioned (sixBytes 1) 1 :=
  (positioned_iff (Nat.succ_pos 3) (sixBytes_reachable 1) (by decide)).mpr
    ⟨rfl, by decide, by decide⟩

/-- The fifth byte is asked for and the first one is read, and the segments run out of the chain. -/
theorem positioned_elsewhere :
    (updateMachine 4).Reachable (sixBytes 0) ∧ 4 ≤ (sixBytes 0).size ∧
      (sixBytes 0).readAt 2 4 = .ok [1, 2] ∧ (sixBytes 0).seekAndRead 2 4 = .ok [5, 6] ∧
      (sixBytes 0).getReadBuffersAt 6 4 = .error .nullNode ∧ ¬Positioned (sixBytes 0) 4 := by
  have hread : (sixBytes 0).readAt 2 4 = .ok [1, 2] := rfl
  have hseek : (sixBytes 0).seekAndRead 2 4 = .ok [5, 6] := rfl
  refine ⟨sixBytes_reachable 0, by decide, hread, hseek, rfl, fun h => ?_⟩
  obtain ⟨bytes, hread', hseek'⟩ := h.reads 2 (by decide)
  cases hread.symm.trans hread'
  cases hseek.symm.trans hseek'

end CppServerFramework.Socket

import CppServerFramework.Misc.CInt
import CppServerFramework.Socket.ByteArrayReach
import CppServerFramework.Socket.ByteArrayTypedProps

/-!
# A `ByteArray` in a file

`writeToFile` takes the place of the cursor in its block off the length of the first write, but
also where less than a block of content is left: what is left and the place are then taken off each
other in turn, until the chain is used up.  Where the place is 0, or a whole block of content is
left, the file holds what `toString` returns.
-/

namespace CppServerFramework.Socket
open Blocks

/-- `ofs.write(cur->ptr + diff, len)`. -/
structure FileWrite where
  node : Nat
  offset : Int
  length : Int
  deriving DecidableEq, Repr

/-- A write that stays inside its node is a segment. -/
def Iovec.fileWrite (v : Iovec) : FileWrite := ⟨v.node, v.offset, v.length⟩

/-- `int diff = pos % m_baseSize`, which is never more than `pos`. -/
def fileDiff (base : Nat) (pos : Int) : Int := CInt.intOfSize (pos.toNat % base)

/-- `int64_t len`. -/
def fileLen (base : Nat) (readSize pos : Int) : Int :=
  (if (base : Int) < readSize then (base : Int) else readSize) - fileDiff base pos

/-- The loop of `writeToFile` (`bytearray.cpp:513-522`) on the nodes from `cur` on, the first of
    them node `k`. -/
def fileLoop (base : Nat) : List (List UInt8) → (k : Nat) → (readSize pos : Int) →
    Except Error (List FileWrite)
  | [], _, readSize, _ => if 0 < readSize then .error .nullNode else .ok []
  | _ :: nodes, k, readSize, pos =>
    if 0 < readSize then do
      let len := fileLen base readSize pos
      let writes ← fileLoop base nodes (k + 1) (readSize - len) (pos + len)
      return ⟨k, fileDiff base pos, len⟩ :: writes
    else .ok []

/-- The loop of `readFromFile` (`bytearray.cpp:536-539`); a read that gets less than a block has
    met the end of the file. -/
def chunkLoop (heap : Nat → UInt8) : Nat → ByteArray → List UInt8 → Except Error ByteArray
  | 0, _, _ => .error .stuck
  | fuel + 1, s, file => do
    let t ← s.write (file.take s.baseSize) heap
    if file.length < s.baseSize then return t else chunkLoop heap fuel t (file.drop s.baseSize)

namespace ByteArray

/-- `ByteArray::writeToFile` (`bytearray.cpp:500-525`), for a file that could be opened or not. -/
def writeToFile (s : ByteArray) (opened : Bool) : Except Error (Bool × List FileWrite) :=
  if opened then do
    let k := s.cur.getD s.nodes.length
    let writes ← fileLoop s.baseSize (s.nodes.drop k) k s.getReadSize s.position
    return (true, writes)
  else .ok (false, [])

/-- `ByteArray::readFromFile` (`bytearray.cpp:527-541`) of a file with these bytes, if it could be
    opened. -/
def readFromFile (s : ByteArray) (heap : Nat → UInt8) :
    Option (List UInt8) → Except Error (Bool × ByteArray)
  | none => .ok (false, s)
  | some file => do
    let t ← chunkLoop heap (file.length + 1) s file
    return (true, t)

end ByteArray

/-- Nothing is left, or the place in the block is 0, or it is an `int` and a whole block is left. -/
def FileFits (base place left : Nat) : Prop :=
  left = 0 ∨ place < 2 ^ 31 ∧ (place = 0 ∨ base ≤ left)

instance (base place left : Nat) : Decidable (FileFits base place left) :=
  inferInstanceAs (Decidable (_ ∨ _))

/-- The writes are the segments of the content behind the cursor, which `toString` returns, and the
    file they make up is read back into any fresh array. -/
def FileRoundTrip (s : ByteArray) : Prop :=
  ∃ iovs, s.writeToFile true = .ok (true, iovs.map Iovec.fileWrite) ∧
    Segments s.baseSize s.nodes iovs s.position s.getReadSize ∧
    s.toString = .ok (gather s.nodes iovs) ∧
    ∀ base, 0 < base → ∀ heap, ∃ t u,
      (ByteArray.new base heap).readFromFile heap (some (gather s.nodes iovs)) = .ok (true, t) ∧
      t.setPosition 0 = .ok u ∧ u.toString = s.toString

/-! ## Reading a file -/

/-- A file is read behind what has been written. -/
theorem Appending.chunkLoop (heap : Nat → UInt8) (fuel : Nat) :
    ∀ {s : ByteArray} {bs : List UInt8} (file : List UInt8), Appending s bs → file.length < fuel →
      ∃ t, chunkLoop heap fuel s file = .ok t ∧ Appending t (bs ++ file) := by
  induction fuel with
  | zero =>
    intro s bs file _ hfuel
    exact absurd hfuel (Nat.not_lt_zero _)
  | succ fuel ih =>
    intro s bs file h hfuel
    have hbase := h.chain.base_pos
    obtain ⟨t, hrun, hbaseSize, ht⟩ : ∃ t, s.write (file.take s.baseSize) heap = .ok t ∧
        t.baseSize = s.baseSize ∧ Appending t (bs ++ file.take s.baseSize) := by
      by_cases hempty : file.take s.baseSize = []
      · refine ⟨s, ?_, rfl, ?_⟩
        · rw [hempty]
          rfl
        · rw [hempty, List.append_nil]
          exact h
      · obtain ⟨t, hrun, -, hbaseSize, ht⟩ := h.write hempty heap
        exact ⟨t, hrun, hbaseSize, ht⟩
    rw [Socket.chunkLoop, hrun]
    simp only [bind, Except.bind, pure, Except.pure]
    by_cases hend : file.length < s.baseSize
    · rw [if_pos hend]
      rw [List.take_of_length_le hend.le] at ht
      exact ⟨t, rfl, ht⟩
    · rw [if_neg hend]
      obtain ⟨u, hu, hall⟩ := ih (file.drop s.baseSize) ht (by rw [List.length_drop]; omega)
      rw [List.append_assoc, List.take_append_drop] at hall
      exact ⟨u, hu, hall⟩

theorem readFromFile_spec {base : Nat} (hbase : 0 < base) (heap : Nat → UInt8)
    (file : List UInt8) :
    ∃ t u, (ByteArray.new base heap).readFromFile heap (some file) = .ok (true, t) ∧
      t.setPosition 0 = .ok u ∧ u.toString = .ok file := by
  obtain ⟨t, hrun, ht⟩ := Appending.chunkLoop heap (file.length + 1) file
    (Appending.new hbase heap false) (Nat.lt_succ_self _)
  obtain ⟨u, hseek, -, -, hsize, hposition, hready⟩ := ht.rewind
  rw [List.nil_append] at hsize hready
  have hleft : u.getReadSize = file.length := by
    rw [ByteArray.getReadSize, hsize, hposition, Nat.sub_zero]
  refine ⟨t, u, ?_, hseek, ?_⟩
  · rw [ByteArray.readFromFile]
    rw [show (ByteArray.new base heap).setIsLittleEndian false = ByteArray.new base heap from rfl]
      at hrun
    rw [hrun]
    rfl
  · rw [toString_spec hready.chain fun _ => hready.denotes, hleft, hready.bytes]

/-! ## Writing a file -/

section
variable {base k : Nat} {nodes : List (List UInt8)} {node : List UInt8} {pos : Int}

theorem fileLoop_done : fileLoop base nodes k 0 pos = .ok [] := by
  cases nodes <;> rfl

/-- One round. -/
theorem fileLoop_cons {readSize : Int} (h : 0 < readSize) :
    fileLoop base (node :: nodes) k readSize pos =
      (fileLoop base nodes (k + 1) (readSize - fileLen base readSize pos)
        (pos + fileLen base readSize pos)).map
        (⟨k, fileDiff base pos, fileLen base readSize pos⟩ :: ·) := by
  rw [fileLoop, if_pos h]
  simp only [bind, Except.bind, pure, Except.pure]
  cases fileLoop base nodes (k + 1) (readSize - fileLen base readSize pos)
    (pos + fileLen base readSize pos) <;> rfl

/-- The writes go through the nodes in order. -/
theorem node_of_fileLoop {readSize : Int} {ws : List FileWrite}
    (h : fileLoop base nodes k readSize pos = .ok ws) : ∀ w ∈ ws, k ≤ w.node := by
  induction nodes generalizing k readSize pos ws with
  | nil =>
    rw [fileLoop] at h
    split at h
    · cases h
    · cases h
      simp
  | cons node nodes ih =>
    by_cases hleft : 0 < readSize
    · rw [fileLoop_cons hleft] at h
      cases hrest : fileLoop base nodes (k + 1) (readSize - fileLen base readSize pos)
        (pos + fileLen base readSize pos) with
      | error e =>
        rw [hrest] at h
        cases h
      | ok rest =>
        rw [hrest] at h
        cases h
        intro w hw
        rcases List.mem_cons.mp hw with rfl | hw
        · exact Nat.le_refl _
        · exact Nat.le_of_succ_le (ih hrest w hw)
    · rw [fileLoop, if_neg hleft] at h
      cases h
      simp

/-- Writes that are segments inside the nodes from `k` on and denote the `left` offsets from `start`
    on. -/
structure FileSegments (base k count : Nat) (iovs : List Iovec) (start left : Nat) : Prop where
  inside : ∀ v ∈ iovs, (k ≤ v.node ∧ v.node < k + count) ∧ v.offset + v.length ≤ base
  cover : iovs.flatMap (Iovec.offsets base) = List.range' start left

theorem FileSegments.cons {count start len left : Nat} {iovs : List Iovec} {v : Iovec}
    (hnode : v.node = k) (hlength : v.length = len) (hin : v.offset + len ≤ base)
    (hstart : k * base + v.offset = start)
    (h : FileSegments base (k + 1) count iovs (start + len) left) :
    FileSegments base k (count + 1) (v :: iovs) start (len + left) := by
  refine ⟨fun w hw => ?_, ?_⟩
  · rcases List.mem_cons.mp hw with rfl | hw
    · exact ⟨⟨hnode.ge, by omega⟩, hlength ▸ hin⟩
    · obtain ⟨⟨hle, hlt⟩, hroom⟩ := h.inside w hw
      exact ⟨⟨by omega, by omega⟩, hroom⟩
  · rw [List.flatMap_cons, h.cover, Iovec.offsets, hnode, hlength, hstart, List.range'_append_1]

/-- From the beginning of a block on, block after block is written. -/
theorem fileLoop_aligned {pos left : Nat} (hpos : pos % base = 0)
    (hleft : left ≤ nodes.length * base) :
    ∃ iovs, fileLoop base nodes k left pos = .ok (iovs.map Iovec.fileWrite) ∧
      FileSegments base k nodes.length iovs (k * base) left := by
  induction nodes generalizing k pos left with
  | nil =>
    obtain rfl : left = 0 := by simpa using hleft
    exact ⟨[], rfl, by simp, rfl⟩
  | cons node nodes ih =>
    rcases Nat.eq_zero_or_pos left with rfl | hsome
    · exact ⟨[], fileLoop_done, by simp, rfl⟩
    · have hdiff : fileDiff base pos = 0 := by
        rw [fileDiff, Int.toNat_natCast, hpos]
        rfl
      have hmul : (k + 1) * base = k * base + base := Nat.succ_mul k base
      rw [List.length_cons, Nat.succ_mul] at hleft
      rw [fileLoop_cons (by omega), fileLen, hdiff, Int.sub_zero]
      by_cases hmore : base < left
      · obtain ⟨iovs, hrun, hrest⟩ := ih (k := k + 1) ((Nat.add_mod_right pos base).trans hpos)
          (show left - base ≤ nodes.length * base by omega)
        rw [if_pos (by omega), ← Nat.cast_sub hmore.le, ← Nat.cast_add, hrun]
        refine ⟨⟨k, 0, base⟩ :: iovs, rfl, ?_⟩
        rw [hmul] at hrest
        have hall := hrest.cons (v := ⟨k, 0, base⟩) rfl rfl (by simp) rfl
        rwa [Nat.add_sub_cancel' hmore.le] at hall
      · rw [if_neg (by omega), Int.sub_self, fileLoop_done]
        refine ⟨[⟨k, 0, left⟩], rfl, ?_⟩
        have hend : FileSegments base (k + 1) nodes.length [] (k * base + left) 0 := ⟨by simp, rfl⟩
        exact hend.cons (v := ⟨k, 0, left⟩) rfl rfl (by simp; omega) rfl

/-- What fits is written from its place in the first block on. -/
theorem fileLoop_of_fits (hbase : 0 < base) {pos left : Nat}
    (hfits : FileFits base (pos % base) left)
    (hleft : pos % base + left ≤ nodes.length * base) :
    ∃ iovs, fileLoop base nodes k left pos = .ok (iovs.map Iovec.fileWrite) ∧
      FileSegments base k nodes.length iovs (k * base + pos % base) left := by
  rcases hfits with rfl | ⟨hint, hplace | hmore⟩
  · exact ⟨[], fileLoop_done, by simp, rfl⟩
  · rw [hplace, Nat.add_zero]
    exact fileLoop_aligned hplace (by omega)
  · cases nodes with
    | nil =>
      simp only [List.length_nil, Nat.zero_mul] at hleft
      omega
    | cons node nodes =>
      have hdiff : fileDiff base pos = (pos % base : Nat) := by
        rw [fileDiff, Int.toNat_natCast, CInt.intOfSize_of_lt hint]
      have hmod := Nat.mod_lt pos hbase
      have hdm := Nat.div_add_mod' pos base
      have hlen : fileLen base left pos = (base - pos % base : Nat) := by
        rw [fileLen, hdiff]
        split <;> omega
      rw [List.length_cons, Nat.succ_mul] at hleft
      have haligned : (pos + (base - pos % base)) % base = 0 := by
        have hsum : pos + (base - pos % base) = (pos / base + 1) * base := by
          rw [Nat.succ_mul]
          omega
        rw [hsum, Nat.mul_mod_left]
      have hroom : left - (base - pos % base) ≤ nodes.length * base := by omega
      obtain ⟨iovs, hrun, hrest⟩ := fileLoop_aligned (k := k + 1) haligned hroom
      rw [fileLoop_cons (by omega), hlen, hdiff, ← Nat.cast_sub (by omega), ← Nat.cast_add, hrun]
      refine ⟨⟨k, pos % base, base - pos % base⟩ :: iovs, rfl, ?_⟩
      have hnext : (k + 1) * base = k * base + pos % base + (base - pos % base) := by
        rw [Nat.succ_mul]
        omega
      rw [hnext] at hrest
      have hall := hrest.cons (v := ⟨k, pos % base, base - pos % base⟩) rfl rfl
        (by simp only []; omega) rfl
      rwa [Nat.add_sub_cancel' (show base - pos % base ≤ left by omega)] at hall

/-- An offset that segments cover is in one of them. -/
theorem exists_of_cover {iovs : List Iovec} {start left : Nat}
    (hcover : iovs.flatMap (Iovec.offsets base) = List.range' start left) (hpos : 0 < left) :
    ∃ v ∈ iovs, v.node * base + v.offset ≤ start ∧
      start < v.node * base + v.offset + v.length := by
  have hmem : start ∈ iovs.flatMap (Iovec.offsets base) := by
    rw [hcover]
    exact List.mem_range'_1.mpr ⟨Nat.le_refl _, by omega⟩
  obtain ⟨v, hv, hin⟩ := List.mem_flatMap.mp hmem
  exact ⟨v, hv, List.mem_range'_1.mp hin⟩

theorem lt_of_intOfSize_eq {n : Nat} (h : CInt.intOfSize n = n) : n < 2 ^ 31 := by
  unfold CInt.intOfSize at h
  split at h <;> omega

/-- Writes that are the segments from the place of the cursor on were made of what fits. -/
theorem fits_of_fileLoop {all : List (List UInt8)} {pos left : Nat} {iovs : List Iovec}
    (hbase : 0 < base) (h : fileLoop base nodes k left pos = .ok (iovs.map Iovec.fileWrite))
    (hsegments : Segments base all iovs (k * base + pos % base) left) :
    FileFits base (pos % base) left := by
  rcases Nat.eq_zero_or_pos left with hzero | hpos
  · exact .inl hzero
  have hmod := Nat.mod_lt pos hbase
  cases nodes with
  | nil =>
    rw [fileLoop, if_pos (by omega)] at h
    cases h
  | cons node nodes =>
    rw [fileLoop_cons (by omega)] at h
    cases hrest : fileLoop base nodes (k + 1) (left - fileLen base left pos)
      (pos + fileLen base left pos) with
    | error e =>
      rw [hrest] at h
      cases h
    | ok ws =>
      rw [hrest, Except.map, Except.ok.injEq] at h
      cases iovs with
      | nil => cases h
      | cons v vs =>
        rw [List.map_cons, List.cons.injEq] at h
        obtain ⟨hfirst, rfl⟩ := h
        obtain ⟨hnode, hoffset, hlength⟩ := FileWrite.mk.inj hfirst
        -- the other writes are in later nodes
        have hlater : ∀ w ∈ vs, (k + 1) * base ≤ w.node * base := fun w hw =>
          Nat.mul_le_mul_right base
            (node_of_fileLoop hrest w.fileWrite (List.mem_map_of_mem hw))
        rw [Nat.succ_mul] at hlater
        obtain ⟨hstart, -, hrest⟩ := hsegments.uncons
        -- so that the first one is at the place of the cursor
        have hsome : 0 < v.length := by
          obtain ⟨w, hw, hle, hlt⟩ := exists_of_cover hsegments.cover hpos
          rcases List.mem_cons.mp hw with rfl | hw
          · omega
          · have := hlater w hw
            omega
        have hplace : v.offset = pos % base := by
          have := hstart hsome
          rw [← hnode] at this
          omega
        have hdiff : fileDiff base pos = (pos % base : Nat) := by rw [hoffset, hplace]
        rw [fileLen, hdiff] at hlength
        rw [fileDiff, Int.toNat_natCast] at hdiff
        refine .inr ⟨lt_of_intOfSize_eq hdiff, ?_⟩
        by_contra hnot
        -- what is left of the block would be in a later node too
        rw [if_neg (by omega)] at hlength
        obtain ⟨w, hw, hle, -⟩ := exists_of_cover hrest.cover (by omega)
        have := hlater w hw
        omega

/-- Where the content ends before the next block and not at the beginning of one, the rounds go on
    until there is no node. -/
theorem fileLoop_null (hsmall : base ≤ 2 ^ 31) {pos left : Nat} (hleft : 0 < left)
    (hless : left < base) (hplace : 0 < pos % base) :
    fileLoop base nodes k left pos = .error .nullNode := by
  induction nodes generalizing k left pos with
  | nil => rw [fileLoop, if_pos (by omega)]
  | cons node nodes ih =>
    have hmod := Nat.mod_lt pos (show 0 < base by omega)
    have hdm := Nat.div_add_mod' pos base
    have hdiff : fileDiff base pos = (pos % base : Nat) := by
      rw [fileDiff, Int.toNat_natCast, CInt.intOfSize_of_lt (by omega)]
    have hlen : fileLen base left pos = (left : Int) - (pos % base : Nat) := by
      rw [fileLen, hdiff, if_neg (by omega)]
    -- the place and what is left change places
    have hnext : (pos + left - pos % base) % base = left := by
      have hsum : pos + left - pos % base = pos / base * base + left := by omega
      rw [hsum, Nat.mul_add_mod', Nat.mod_eq_of_lt hless]
    have hpos : (pos : Int) + (left - (pos % base : Nat)) = (pos + left - pos % base : Nat) := by
      omega
    rw [fileLoop_cons (by omega), hlen, Int.sub_sub_self, hpos, ih hplace hmod (by omega)]
    rfl

end

/-! ## Files and arrays -/

variable {s t : ByteArray}

/-- With `m_cur` at node `k`, what fits is written from there on. -/
theorem writeToFile_of_fits (h : Lagging s)
    (hfits : FileFits s.baseSize (s.position % s.baseSize) s.getReadSize) :
    ∃ k iovs, s.writeToFile true = .ok (true, iovs.map Iovec.fileWrite) ∧
      Segments s.baseSize s.nodes iovs (s.start k) s.getReadSize ∧
      (0 < s.getReadSize → s.cur = some k) := by
  have hc := h.chain
  have hle := hc.size_le
  rw [ByteArray.writeToFile, if_pos rfl]
  cases hk : s.cur with
  | none =>
    have hzero : s.getReadSize = 0 := by
      have := h.atEnd hk
      rw [ByteArray.getReadSize]
      omega
    refine ⟨0, [], ?_, ?_, by omega⟩
    · simp only [hzero, Nat.cast_zero, fileLoop_done]
      rfl
    · rw [hzero]
      exact ⟨by simp, rfl⟩
  | some k =>
    have hcur := hc.cur_valid k hk
    have hroom := h.fits (n := s.getReadSize) hk (by
      have := hc.position_le
      rw [ByteArray.getReadSize]
      omega)
    have hlength : (s.nodes.drop k).length = s.nodes.length - k := List.length_drop
    have hsplit := Nat.sub_mul s.nodes.length k s.baseSize
    rw [ByteArray.start] at hroom
    have hleft : s.position % s.baseSize + s.getReadSize ≤
        (s.nodes.drop k).length * s.baseSize := by
      rw [hlength]
      omega
    obtain ⟨iovs, hrun, hsegments⟩ := fileLoop_of_fits (k := k) hc.base_pos hfits hleft
    refine ⟨k, iovs, ?_, ⟨fun v hv => ?_, hsegments.cover⟩, fun _ => rfl⟩
    · simp only [Option.getD_some, hrun]
      rfl
    · obtain ⟨⟨-, hlt⟩, hin⟩ := hsegments.inside v hv
      exact ⟨by omega, hin⟩

/-- With the cursor where `setPosition` has put it, the file is right exactly where it fits. -/
theorem fileRoundTrip_iff_fits (h : Lagging s) (hcur : CurDenotes s) :
    FileRoundTrip s ↔ FileFits s.baseSize (s.position % s.baseSize) s.getReadSize := by
  have hc := h.chain
  have hdm := Nat.div_add_mod' s.position s.baseSize
  constructor
  · rintro ⟨iovs, hrun, hsegments, -⟩
    rcases Nat.eq_zero_or_pos s.getReadSize with hzero | hpos
    · exact .inl hzero
    · have hk : s.cur = some (s.position / s.baseSize) := by
        refine hcur ?_
        have := hc.size_le
        rw [ByteArray.getReadSize] at hpos
        omega
      rw [ByteArray.writeToFile, if_pos rfl, hk, Option.getD_some] at hrun
      cases hloop : fileLoop s.baseSize (s.nodes.drop (s.position / s.baseSize))
          (s.position / s.baseSize) s.getReadSize s.position with
      | error e =>
        simp only [hloop, bind, Except.bind] at hrun
        cases hrun
      | ok ws =>
        simp only [hloop, bind, Except.bind, pure, Except.pure] at hrun
        cases hrun
        rw [← hdm] at hsegments
        exact fits_of_fileLoop hc.base_pos hloop hsegments
  · intro hfits
    obtain ⟨k, iovs, hrun, hsegments, hk⟩ := writeToFile_of_fits h hfits
    have hall : Segments s.baseSize s.nodes iovs s.position s.getReadSize := by
      rcases Nat.eq_zero_or_pos s.getReadSize with hzero | hpos
      · rw [hzero] at hsegments ⊢
        exact ⟨hsegments.inside, hsegments.cover⟩
      · have hlt : s.position < s.capacity := by
          have := hc.size_le
          rw [ByteArray.getReadSize] at hpos
          omega
        obtain rfl : s.position / s.baseSize = k :=
          Option.some.inj ((hcur hlt).symm.trans (hk hpos))
        rwa [ByteArray.start, hdm] at hsegments
    have htext : s.toString = .ok (gather s.nodes iovs) := by
      rw [toString_spec hc fun _ => hcur, hall.gather_eq hc.block]
    refine ⟨iovs, hrun, hall, htext, fun base hbase heap => ?_⟩
    obtain ⟨t, u, hread, hseek, hu⟩ := readFromFile_spec hbase heap (gather s.nodes iovs)
    exact ⟨t, u, hread, hseek, hu.trans htext.symm⟩

/-- Whatever has been done to an array and wherever `setPosition` has put the cursor, the file is
    right exactly where the content from there on fits. -/
theorem file_round_trip_iff {base v : Nat} (hbase : 0 < base)
    (h : (updateMachine base).Reachable s) (hset : s.setPosition v = .ok t) :
    FileRoundTrip t ↔ FileFits t.baseSize (t.position % t.baseSize) t.getReadSize := by
  have hc := (lagging_of_reach hbase h).chain
  have hv : v ≤ s.capacity := by
    by_contra hnot
    rw [ByteArray.setPosition, if_pos (by omega)] at hset
    cases hset
  obtain ⟨u, hu, hlag, hcur, -⟩ := setPosition_lagging hc hv
  cases hu.symm.trans hset
  exact fileRoundTrip_iff_fits hlag hcur

theorem file_round_trip_block : FileRoundTrip (sixBytes 4) :=
  (file_round_trip_iff (Nat.succ_pos 3) (sixBytes_reachable 0) (v := 4) rfl).mpr (by decide)

/-- One byte is left in the second block and one in front of it: nothing is written, and there is no
    third block. -/
theorem file_within_block :
    (updateMachine 4).Reachable (sixBytes 0) ∧ (sixBytes 0).setPosition 5 = .ok (sixBytes 5) ∧
      (sixBytes 5).toString = .ok [6] ∧ (sixBytes 5).writeToFile true = .error .nullNode ∧
      ¬FileRoundTrip (sixBytes 5) := by
  have hfile : (sixBytes 5).writeToFile true = .error .nullNode := rfl
  refine ⟨sixBytes_reachable 0, rfl, rfl, hfile, fun h => ?_⟩
  obtain ⟨iovs, hrun, -⟩ := h
  cases hfile.symm.trans hrun

end CppServerFramework.Socket

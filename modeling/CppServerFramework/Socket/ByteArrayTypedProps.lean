import CppServerFramework.Socket.ByteArrayTyped

/-!
# Typed values round trip

A value is written as its bytes, `Value.bytes`, and read back from any state in which those
bytes lie behind the cursor (`Ready`).  A fresh array that has only been written to is never
left with `m_cur` behind the cursor, because its spare capacity is less than a block
(`Appending`).
-/

namespace CppServerFramework.Socket
open Bits Blocks

variable {w : Nat} {host : Endian}

/-! ## Numbers and bytes -/

theorem fromMemory_memory (n x : Nat) : fromMemory host (memory host n x) = x % 256 ^ n := by
  cases host with
  | little => exact ofBytes_toBytes n x
  | big => simp only [memory, fromMemory, List.reverse_reverse, ofBytes_toBytes]

@[simp] theorem length_memory (n x : Nat) : (memory host n x).length = n := by
  cases host <;> simp [memory]

theorem getLsbD_bswap16 (v : BitVec 16) {k : Nat} (hk : k < 16) :
    (bswap16 v).getLsbD k = v.getLsbD (8 - 8 * (k / 8) + k % 8) := by
  simp only [bswap16, BitVec.getLsbD_or, BitVec.getLsbD_ushiftRight, BitVec.getLsbD_shiftLeft,
    BitVec.getLsbD_and]
  interval_cases k <;> simp

theorem getLsbD_bswap32 (v : BitVec 32) {k : Nat} (hk : k < 32) :
    (bswap32 v).getLsbD k = v.getLsbD (24 - 8 * (k / 8) + k % 8) := by
  simp only [bswap32, BitVec.getLsbD_or, BitVec.getLsbD_ushiftRight, BitVec.getLsbD_shiftLeft,
    BitVec.getLsbD_and]
  interval_cases k <;> simp

theorem getLsbD_bswap64 (v : BitVec 64) {k : Nat} (hk : k < 64) :
    (bswap64 v).getLsbD k = v.getLsbD (56 - 8 * (k / 8) + k % 8) := by
  simp only [bswap64, BitVec.getLsbD_or, BitVec.getLsbD_ushiftRight, BitVec.getLsbD_shiftLeft,
    BitVec.getLsbD_and]
  interval_cases k <;> simp

/-- Swapping the order of the bytes twice, for a swap given bit by bit. -/
theorem swap_swap {swap : BitVec w → BitVec w} {top : Nat} (htop : w = top + 8)
    (hdvd : top % 8 = 0)
    (hbit : ∀ v k, k < w → (swap v).getLsbD k = v.getLsbD (top - 8 * (k / 8) + k % 8))
    (v : BitVec w) : swap (swap v) = v := by
  apply BitVec.eq_of_getLsbD_eq
  intro k hk
  rw [hbit _ k hk, hbit _ _ (by omega)]
  congr 1
  omega

theorem bswap16_bswap16 (v : BitVec 16) : bswap16 (bswap16 v) = v :=
  swap_swap (by decide) (by decide) (fun v _ hk => getLsbD_bswap16 v hk) v

theorem bswap32_bswap32 (v : BitVec 32) : bswap32 (bswap32 v) = v :=
  swap_swap (by decide) (by decide) (fun v _ hk => getLsbD_bswap32 v hk) v

theorem bswap64_bswap64 (v : BitVec 64) : bswap64 (bswap64 v) = v :=
  swap_swap (by decide) (by decide) (fun v _ hk => getLsbD_bswap64 v hk) v

/-- Negative numbers become the odd ones, the least of them the greatest. -/
theorem toNat_encodeZigzag (hw : 1 < w) (v : BitVec w) :
    (encodeZigzag v).toNat =
      if 2 ^ (w - 1) ≤ v.toNat then 2 * (2 ^ w - 1 - v.toNat) + 1 else 2 * v.toNat := by
  have hhalf : 2 ^ w = 2 * 2 ^ (w - 1) := by
    rw [← Nat.pow_succ', Nat.succ_eq_add_one, Nat.sub_add_cancel (by omega)]
  have htwo : 2 ≤ 2 ^ (w - 1) := Nat.le_self_pow (by omega) 2
  have hlt := v.isLt
  have hsign : v.slt 0#w = decide (2 ^ (w - 1) ≤ v.toNat) := by
    rw [BitVec.slt_zero_eq_msb, BitVec.msb_eq_decide]
  unfold encodeZigzag
  rw [hsign]
  by_cases hneg : 2 ^ (w - 1) ≤ v.toNat
  · simp only [hneg, decide_true, if_true, BitVec.toNat_sub, BitVec.toNat_mul, BitVec.toNat_neg,
      BitVec.toNat_ofNat]
    generalize v.toNat = x at *
    generalize 2 ^ w = N at *
    rw [Nat.mod_eq_of_lt (a := 1) (by omega), Nat.mod_eq_of_lt (a := 2) (by omega),
      Nat.mod_eq_of_lt (a := N - x) (by omega)]
    -- the least number is its own negation, and its double wraps to 0
    by_cases hmin : (N - x) * 2 = N
    · rw [hmin, Nat.mod_self, Nat.mod_eq_of_lt (by omega)]
      omega
    · rw [Nat.mod_eq_of_lt (a := (N - x) * 2) (by omega),
        show N - 1 + (N - x) * 2 = N + ((N - x) * 2 - 1) by omega, Nat.add_mod_left,
        Nat.mod_eq_of_lt (by omega)]
      omega
  · simp only [hneg, decide_false, Bool.false_eq_true, if_false, BitVec.toNat_mul,
      BitVec.toNat_ofNat]
    rw [Nat.mod_eq_of_lt (a := 2) (by omega), Nat.mod_eq_of_lt (by omega), Nat.mul_comm]

theorem decodeZigzag_encodeZigzag (hw : 1 < w) (v : BitVec w) :
    decodeZigzag (encodeZigzag v) = v := by
  have henc := toNat_encodeZigzag hw v
  have hlt := v.isLt
  have hshift : (encodeZigzag v >>> 1).toNat = (encodeZigzag v).toNat / 2 := by
    rw [BitVec.toNat_ushiftRight, Nat.shiftRight_eq_div_pow]
  unfold decodeZigzag
  rw [and_one (by omega)]
  generalize encodeZigzag v = e at *
  split at henc
  · have hnot : e >>> 1 = ~~~v := by
      apply BitVec.eq_of_toNat_eq
      rw [hshift, BitVec.toNat_not, henc]
      omega
    rw [hnot, henc, show (2 * (2 ^ w - 1 - v.toNat) + 1) % 2 = 1 by omega,
      BitVec.neg_one_eq_allOnes, BitVec.xor_allOnes, BitVec.not_not]
  · have hsame : e >>> 1 = v := by
      apply BitVec.eq_of_toNat_eq
      rw [hshift, henc]
      omega
    rw [hsame, henc, show 2 * v.toNat % 2 = 0 by omega, BitVec.neg_zero, BitVec.xor_zero]

/-! ## Groups of seven bits -/

theorem varintBytes_of_lt {v : BitVec w} (h : v.toNat < 0x80) :
    varintBytes v = [UInt8.ofBitVec (v.setWidth 8)] := by
  rw [varintBytes, if_neg (by omega)]

theorem varintBytes_of_le {v : BitVec w} (h : 0x80 ≤ v.toNat) :
    varintBytes v =
      UInt8.ofBitVec (((v &&& 0x7F#w) ||| 0x80#w).setWidth 8) :: varintBytes (v >>> 7) := by
  rw [varintBytes, if_pos h]

theorem varintBytes_ne_nil (v : BitVec w) : varintBytes v ≠ [] := by
  rw [varintBytes]
  split <;> simp

/-- A number below `2 ^ m` takes at most `⌈m / 7⌉` bytes. -/
theorem length_varintBytes_lt (m : Nat) :
    ∀ v : BitVec w, v.toNat < 2 ^ m → 0 < m → 7 * (varintBytes v).length < m + 7 := by
  induction m using Nat.strongRecOn with
  | ind m ih =>
    intro v hv hm
    by_cases hlast : v.toNat < 0x80
    · rw [varintBytes_of_lt hlast]
      simpa using hm
    · have hlong : 7 < m := by
        by_contra hle
        have := Nat.pow_le_pow_right (show 0 < 2 by decide) (Nat.le_of_not_lt hle)
        omega
      have hrest : (v >>> 7).toNat < 2 ^ (m - 7) := by
        rw [BitVec.toNat_ushiftRight, Nat.shiftRight_eq_div_pow]
        apply (Nat.div_lt_iff_lt_mul (by decide)).mpr
        rwa [← Nat.pow_add, Nat.sub_add_cancel (by omega)]
      have := ih (m - 7) (by omega) _ hrest (by omega)
      rw [varintBytes_of_le (by omega), List.length_cons]
      omega

/-- `tmp[5]` is not overrun. -/
theorem length_varintBytes_32 (v : BitVec 32) : (varintBytes v).length ≤ 5 := by
  have := length_varintBytes_lt 32 v v.isLt (by decide)
  omega

/-- `tmp[10]` is not overrun. -/
theorem length_varintBytes_64 (v : BitVec 64) : (varintBytes v).length ≤ 10 := by
  have := length_varintBytes_lt 64 v v.isLt (by decide)
  omega

theorem getLsbD_7F (n k : Nat) : (0x7F#n).getLsbD k = (decide (k < n) && decide (k < 7)) := by
  rw [BitVec.getLsbD_ofNat, show (0x7F : Nat) = 2 ^ 7 - 1 from rfl, Nat.testBit_two_pow_sub_one]

theorem getLsbD_80 (n k : Nat) : (0x80#n).getLsbD k = (decide (k < n) && decide (7 = k)) := by
  rw [BitVec.getLsbD_ofNat, show (0x80 : Nat) = 2 ^ 7 from rfl, Nat.testBit_two_pow]

/-- A byte with the continuation bit is recognised, -/
theorem le_toNat_groupByte (hw : 8 ≤ w) (v : BitVec w) :
    0x80 ≤ (((v &&& 0x7F#w) ||| 0x80#w).setWidth 8).toNat := by
  have hmsb : (((v &&& 0x7F#w) ||| 0x80#w).setWidth 8).msb = true := by
    rw [BitVec.msb_eq_getLsbD_last]
    simp only [BitVec.getLsbD_setWidth, BitVec.getLsbD_or, getLsbD_80]
    simp [show 7 < w by omega]
  rw [BitVec.msb_eq_decide] at hmsb
  exact of_decide_eq_true hmsb

/-- and gives back the seven bits put into it. -/
theorem groupByte_and (v : BitVec w) :
    ((((v &&& 0x7F#w) ||| 0x80#w).setWidth 8) &&& 0x7F#8).setWidth w = low v 7 := by
  apply BitVec.eq_of_getLsbD_eq
  intro k hk
  simp only [BitVec.getLsbD_setWidth, BitVec.getLsbD_and, BitVec.getLsbD_or, getLsbD_low,
    getLsbD_7F, getLsbD_80]
  by_cases hk7 : k < 7
  · simp [hk, hk7, show k < 8 by omega, show ¬ 7 = k by omega]
  · simp [hk7]

theorem lastByte {v : BitVec w} (hw : 8 ≤ w) (h : v.toNat < 0x80) :
    (v.setWidth 8).toNat < 0x80 ∧ (v.setWidth 8).setWidth w = low v 7 := by
  have hpow : 2 ^ 8 ≤ 2 ^ w := Nat.pow_le_pow_right (by decide) hw
  have hval : (v.setWidth 8).toNat = v.toNat := by
    rw [BitVec.toNat_setWidth, Nat.mod_eq_of_lt (by omega)]
  refine ⟨by omega, ?_⟩
  rw [low_of_lt (by omega)]
  apply BitVec.eq_of_toNat_eq
  rw [BitVec.toNat_setWidth, hval, Nat.mod_eq_of_lt v.isLt]

/-! ## Reading what lies behind the cursor -/

/-- The bytes `bs` lie behind the cursor, and `m_cur` denotes it. -/
structure Ready (s : ByteArray) (bs : List UInt8) : Prop where
  chain : Chain s
  denotes : CurDenotes s
  room : s.position + bs.length ≤ s.size
  bytes : slice s.nodes.flatten s.position bs.length = bs

@[simp] theorem advance_endian (s : ByteArray) (n : Nat) : (s.advance n).endian = s.endian := rfl

theorem advance_advance (s : ByteArray) (m n : Nat) :
    (s.advance m).advance n = s.advance (m + n) := by
  simp only [ByteArray.advance, Nat.add_assoc]

theorem Ready.read {s : ByteArray} {bs : List UInt8} (h : Ready s bs) (hne : bs ≠ []) :
    s.read bs.length = .ok (bs, s.advance bs.length) := by
  have hroom := h.room
  rw [read_spec h.chain h.denotes (List.length_pos_iff.mpr hne)
    (by unfold ByteArray.getReadSize; omega), h.bytes]

/-- The first bytes are ready, and the rest of them is when they have been read. -/
theorem Ready.append {s : ByteArray} {xs ys : List UInt8} (h : Ready s (xs ++ ys)) :
    Ready s xs ∧ Ready (s.advance xs.length) ys := by
  have hroom := h.room
  have hbytes := h.bytes
  rw [List.length_append] at hroom
  rw [List.length_append, slice_add] at hbytes
  have hlen : (slice s.nodes.flatten s.position xs.length).length = xs.length :=
    length_slice (by rw [h.chain.length_flatten]; have := h.chain.size_le; omega)
  obtain ⟨hxs, hys⟩ := List.append_inj hbytes hlen
  refine ⟨⟨h.chain, h.denotes, by omega, hxs⟩,
    ⟨h.chain.advance (by omega), .advance s xs.length, ?_, hys⟩⟩
  change s.position + xs.length + ys.length ≤ s.size
  omega

theorem readMemory_of_ready {s : ByteArray} {v : BitVec w} (hw : 8 ∣ w) (hpos : 0 < w)
    (h : Ready s (memory host (w / 8) v.toNat)) :
    s.readMemory host w = .ok (v, s.advance (w / 8)) := by
  have hread := h.read (List.ne_nil_of_length_pos (by
    rw [length_memory]
    exact Nat.div_pos (Nat.le_of_dvd hpos hw) (by decide)))
  rw [length_memory] at hread
  have hpow : 256 ^ (w / 8) = 2 ^ w := by
    rw [show 256 = 2 ^ 8 from rfl, ← Nat.pow_mul, Nat.mul_div_cancel' hw]
  unfold ByteArray.readMemory
  rw [hread]
  simp only [bind, Except.bind, pure, Except.pure, fromMemory_memory, hpow]
  rw [Nat.mod_eq_of_lt v.isLt, BitVec.ofNat_toNat, BitVec.setWidth_eq]

theorem readFixed_of_ready {s : ByteArray} {v : BitVec w} {byteswap : BitVec w → BitVec w}
    (hw : 8 ∣ w) (hpos : 0 < w) (hswap : ∀ v, byteswap (byteswap v) = v)
    (h : Ready s (memory host (w / 8) (if s.endian ≠ host then byteswap v else v).toNat)) :
    s.readFixed host byteswap = .ok (v, s.advance (w / 8)) := by
  unfold ByteArray.readFixed
  rw [readMemory_of_ready hw hpos h]
  simp only [bind, Except.bind, pure, Except.pure, advance_endian]
  by_cases heq : s.endian = host
  · simp [heq]
  · simp [heq, hswap]

/-- The bytes of a single byte. -/
theorem memory_one (host : Endian) (b : BitVec 8) :
    memory host (8 / 8) b.toNat = [UInt8.ofBitVec b] := by
  have hb : UInt8.ofNat b.toNat = UInt8.ofBitVec b := by
    simp [UInt8.ofNat]
  cases host <;> simp [memory, toBytes, hb]

/-- The loop, entered with the `i` low bits read. -/
theorem readVarint_of_ready (host : Endian) (hw : 8 ≤ w) (v : BitVec w) (n : Nat) :
    ∀ (s : ByteArray) (i : Nat), w - i ≤ n → i < w → Ready s (varintBytes (v >>> i)) →
      s.readVarint host i (low v i) = .ok (v, s.advance (varintBytes (v >>> i)).length) := by
  induction n with
  | zero => intro s i hn hi; omega
  | succ n ih =>
    intro s i hn hi h
    rw [ByteArray.readVarint, dif_pos hi]
    by_cases hlast : (v >>> i).toNat < 0x80
    · rw [varintBytes_of_lt hlast] at h ⊢
      obtain ⟨hsmall, hbits⟩ := lastByte hw hlast
      rw [← memory_one host] at h
      simp only [ByteArray.readFuint8, readMemory_of_ready (by decide) (by decide) h, bind,
        Except.bind, pure, Except.pure]
      rw [if_pos hsmall, hbits, low_or, low_of_shift_lt (by omega)]
      rfl
    · rw [varintBytes_of_le (by omega)] at h ⊢
      have hmore : i + 7 < w := by
        by_contra hle
        have hv := v.isLt
        have hpow := Nat.pow_le_pow_right (show 0 < 2 by decide) (Nat.le_of_not_lt hle)
        rw [BitVec.toNat_ushiftRight, Nat.shiftRight_eq_div_pow, Nat.not_lt] at hlast
        have := (Nat.le_div_iff_mul_le (Nat.two_pow_pos i)).mp hlast
        rw [Nat.pow_add] at hpow
        omega
      rw [← List.singleton_append] at h
      obtain ⟨hfirst, hrest⟩ := h.append
      rw [← memory_one host] at hfirst
      rw [← BitVec.shiftRight_add] at hrest
      simp only [ByteArray.readFuint8, readMemory_of_ready (by decide) (by decide) hfirst, bind,
        Except.bind, pure, Except.pure]
      rw [if_neg (Nat.not_lt.mpr (le_toNat_groupByte hw _)), groupByte_and, low_or]
      have hstep := ih _ (i + 7) (by omega) hmore hrest
      rw [advance_advance, BitVec.shiftRight_add, List.length_singleton, Nat.add_comm 1] at hstep
      exact hstep

theorem readVarint_zero (hw : 8 ≤ w) (v : BitVec w) {s : ByteArray} (h : Ready s (varintBytes v)) :
    s.readVarint host 0 0#w = .ok (v, s.advance (varintBytes v).length) := by
  have hrun := readVarint_of_ready host hw v w s 0 (by omega) (by omega)
    (by rwa [BitVec.ushiftRight_zero])
  rwa [low_zero, BitVec.ushiftRight_zero] at hrun

/-! ## Values -/

/-- The bytes a value is written as. -/
def Value.bytes (host endian : Endian) : Value → List UInt8
  | .fint8 v | .fuint8 v => memory host 1 v.toNat
  | .fint16 v | .fuint16 v => memory host 2 (if endian ≠ host then bswap16 v else v).toNat
  | .fint32 v | .fuint32 v | .float v =>
    memory host 4 (if endian ≠ host then bswap32 v else v).toNat
  | .fint64 v | .fuint64 v | .double v =>
    memory host 8 (if endian ≠ host then bswap64 v else v).toNat
  | .int32 v => varintBytes (encodeZigzag v)
  | .int64 v => varintBytes (encodeZigzag v)
  | .uint32 v => varintBytes v
  | .uint64 v => varintBytes v

theorem Value.bytes_ne_nil (host endian : Endian) (v : Value) : v.bytes host endian ≠ [] := by
  cases v with
  | int32 | int64 | uint32 | uint64 => exact varintBytes_ne_nil _
  | _ => exact List.ne_nil_of_length_pos (by simp [Value.bytes])

theorem writeValue_eq (s : ByteArray) (heap : Nat → UInt8) (v : Value) :
    s.writeValue host heap v = s.write (v.bytes host s.endian) heap := by
  cases v <;> rfl

/-- The read function of its kind reads a value whose bytes lie behind the cursor. -/
theorem readValue_of_ready {s : ByteArray} {v : Value} (h : Ready s (v.bytes host s.endian)) :
    s.readValue host v.kind = .ok (v, s.advance (v.bytes host s.endian).length) := by
  cases v with
  | fint8 v | fuint8 v =>
    simp only [Value.kind, ByteArray.readValue, ByteArray.readFint8, ByteArray.readFuint8]
    rw [readMemory_of_ready (by decide) (by decide) h]
    simp [ByteArray.tagged, Except.map, Value.bytes]
  | fint16 v | fuint16 v =>
    simp only [Value.kind, ByteArray.readValue, ByteArray.readFint16, ByteArray.readFuint16]
    rw [readFixed_of_ready (by decide) (by decide) bswap16_bswap16 h]
    simp [ByteArray.tagged, Except.map, Value.bytes]
  | fint32 v | fuint32 v | float v =>
    simp only [Value.kind, ByteArray.readValue, ByteArray.readFloat, ByteArray.readFint32,
      ByteArray.readFuint32]
    rw [readFixed_of_ready (by decide) (by decide) bswap32_bswap32 h]
    simp [ByteArray.tagged, Except.map, Value.bytes]
  | fint64 v | fuint64 v | double v =>
    simp only [Value.kind, ByteArray.readValue, ByteArray.readDouble, ByteArray.readFint64,
      ByteArray.readFuint64]
    rw [readFixed_of_ready (by decide) (by decide) bswap64_bswap64 h]
    simp [ByteArray.tagged, Except.map, Value.bytes]
  | int32 v =>
    simp only [Value.kind, ByteArray.readValue, ByteArray.readInt32, ByteArray.readUint32]
    rw [readVarint_zero (by decide) _ h]
    simp [ByteArray.tagged, Except.map, Value.bytes, decodeZigzag_encodeZigzag]
  | int64 v =>
    simp only [Value.kind, ByteArray.readValue, ByteArray.readInt64, ByteArray.readUint64]
    rw [readVarint_zero (by decide) _ h]
    simp [ByteArray.tagged, Except.map, Value.bytes, decodeZigzag_encodeZigzag]
  | uint32 v | uint64 v =>
    simp only [Value.kind, ByteArray.readValue, ByteArray.readUint32, ByteArray.readUint64]
    rw [readVarint_zero (by decide) _ h]
    simp [ByteArray.tagged, Except.map, Value.bytes]

/-! ## Appending -/

/-- The state of an array that has only been written to: the cursor is at the end, less than a
    block is spare, and `bs` is what has been written. -/
structure Appending (s : ByteArray) (bs : List UInt8) : Prop where
  chain : Chain s
  denotes : CurDenotes s
  atEnd : s.position = s.size
  tight : s.capacity = s.baseSize ∨ s.capacity < s.position + s.baseSize
  bytes : s.nodes.flatten.take s.size = bs

theorem Appending.new {base : Nat} (hbase : 0 < base) (heap : Nat → UInt8) (endian : Bool) :
    Appending ((ByteArray.new base heap).setIsLittleEndian endian) [] where
  chain :=
    have h := Chain.new hbase heap
    ⟨h.1, h.2, h.3, h.4, h.5, h.6, h.7⟩
  denotes _ := by simp [ByteArray.setIsLittleEndian, ByteArray.new]
  atEnd := rfl
  tight := Or.inl rfl
  bytes := by simp [ByteArray.setIsLittleEndian, ByteArray.new]

/-- The end of the last block is the end of the chain: `m_cur` is not left behind. -/
theorem Appending.write {s : ByteArray} {bs buf : List UInt8} (h : Appending s bs)
    (hne : buf ≠ []) (heap : Nat → UInt8) :
    ∃ t, s.write buf heap = .ok t ∧ t.endian = s.endian ∧ t.baseSize = s.baseSize ∧
      Appending t (bs ++ buf) := by
  obtain ⟨t, hrun, hw⟩ := write_spec h.chain h.denotes hne heap
  have hpos : 0 < buf.length := List.length_pos_iff.mpr hne
  have hposition := hw.position
  have hbase := hw.baseSize
  have htight : t.capacity = t.baseSize ∨ t.capacity < t.position + t.baseSize := by
    rcases hw.grown with hsame | ⟨-, hgrown⟩
    · rcases h.tight with h1 | h1
      · exact Or.inl (by omega)
      · exact Or.inr (by omega)
    · exact Or.inr (by omega)
  refine ⟨t, hrun, hw.endian, hbase, hw.chain, ?_, ?_, htight, ?_⟩
  · intro hlt
    have hb := hw.chain.base_pos
    have hcap := hw.chain.capacity_eq
    have hmod := Nat.mod_lt t.position hb
    have hdm := Nat.div_add_mod' t.position t.baseSize
    have hblock : t.position / t.baseSize < t.nodes.length :=
      block_lt t.baseSize (t.position % t.baseSize) (by omega)
    have hnext := Nat.mul_le_mul_right t.baseSize (Nat.succ_le_of_lt hblock)
    rw [Nat.succ_mul] at hnext
    -- a boundary inside the chain would leave a whole block spare
    have hinside : 0 < t.position % t.baseSize := by
      rcases htight with hone | hspare
      · rw [Nat.mod_eq_of_lt (by omega)]
        omega
      · omega
    rw [hw.cur, ← hw.position, ← hw.baseSize, show t.position - 1 =
      t.position / t.baseSize * t.baseSize + (t.position % t.baseSize - 1) by omega,
      block_div (by omega)]
  · rw [hw.size, hw.position, h.atEnd, Nat.max_eq_right (by omega)]
  · obtain ⟨fresh, hbytes⟩ := hw.bytes
    have hle : s.size ≤ s.nodes.flatten.length := by
      rw [h.chain.length_flatten]
      exact h.chain.size_le
    rw [hbytes, hw.size, h.atEnd, take_overwrite_append (Nat.le_refl _) hle, h.bytes, overwrite]
    have hlen : bs.length = s.size := by
      rw [← h.bytes, List.length_take, Nat.min_eq_left hle]
    rw [← hlen, List.take_length, List.drop_eq_nil_of_le (by omega), List.append_nil]

theorem Appending.writeAll (host : Endian) {endian : Endian} (vs : List Value)
    (heap : Nat → UInt8) :
    ∀ {s : ByteArray} {bs : List UInt8}, Appending s bs → s.endian = endian →
      ∃ t, s.writeAll host heap vs = .ok t ∧ t.endian = endian ∧
        Appending t (bs ++ vs.flatMap fun v => v.bytes host endian) := by
  induction vs with
  | nil => intro s bs h he; exact ⟨s, rfl, he, by simpa using h⟩
  | cons v vs ih =>
    intro s bs h he
    obtain ⟨t, hrun, hte, -, ht⟩ := h.write (v.bytes_ne_nil host s.endian) heap
    obtain ⟨u, hrest, hue, hu⟩ := ih ht (hte.trans he)
    refine ⟨u, ?_, hue, ?_⟩
    · rw [ByteArray.writeAll, writeValue_eq, hrun]
      exact hrest
    · rw [he] at hu
      rw [List.flatMap_cons, ← List.append_assoc]
      exact hu

theorem Appending.rewind {s : ByteArray} {bs : List UInt8} (h : Appending s bs) :
    ∃ t, s.setPosition 0 = .ok t ∧ t.endian = s.endian ∧ t.capacity = s.capacity ∧
      t.size = bs.length ∧ t.position = 0 ∧ Ready t bs := by
  have hlen : s.size = bs.length := by
    rw [← h.bytes, List.length_take, h.chain.length_flatten, Nat.min_eq_left h.chain.size_le]
  have hmax : max s.size 0 = s.size := Nat.max_eq_left (Nat.zero_le _)
  refine ⟨_, setPosition_spec h.chain (Nat.zero_le _), rfl, rfl, by rw [hmax, hlen], rfl,
    h.chain.setPosition (Nat.zero_le _), fun hlt => if_pos hlt, ?_, ?_⟩
  · rw [hmax, hlen]
    exact Nat.le_of_eq (Nat.zero_add _)
  · rw [slice, List.drop_zero, ← hlen]
    exact h.bytes

/-- Values whose bytes lie behind the cursor are read one after the other. -/
theorem readAll_of_ready (host endian : Endian) (vs : List Value) :
    ∀ (s : ByteArray), s.endian = endian →
      Ready s (vs.flatMap fun v => v.bytes host endian) →
      ∃ t, s.readAll host (vs.map Value.kind) = .ok (vs, t) ∧ t.size = s.size ∧
        t.position = s.position + (vs.flatMap fun v => v.bytes host endian).length := by
  induction vs with
  | nil => intro s _ _; exact ⟨s, rfl, rfl, rfl⟩
  | cons v vs ih =>
    intro s he h
    rw [List.flatMap_cons] at h
    obtain ⟨hfirst, hrest⟩ := h.append
    rw [← he] at hfirst
    obtain ⟨t, hrun, hsize, hpos⟩ := ih (s.advance (v.bytes host endian).length) he hrest
    refine ⟨t, ?_, hsize, ?_⟩
    · rw [List.map_cons, ByteArray.readAll, readValue_of_ready hfirst, he]
      simp only [bind, Except.bind, pure, Except.pure, hrun]
    · rw [hpos, List.flatMap_cons, List.length_append, ← Nat.add_assoc]
      rfl

/-- Every sequence of values written to a fresh array is read back after a rewind, by the read
    functions of the same kinds and under the same endianness, and uses up the array. -/
theorem typed_round_trip (host : Endian) (little : Bool) {base : Nat} (hbase : 0 < base)
    (heap : Nat → UInt8) (vs : List Value) :
    (∃ s t u, ((ByteArray.new base heap).setIsLittleEndian little).writeAll host heap vs = .ok s ∧
      s.setPosition 0 = .ok t ∧ t.readAll host (vs.map Value.kind) = .ok (vs, u) ∧
      u.getReadSize = 0) ∧
    (∀ v : BitVec 32, (varintBytes v).length ≤ 5) ∧
    ∀ v : BitVec 64, (varintBytes v).length ≤ 10 := by
  refine ⟨?_, length_varintBytes_32, length_varintBytes_64⟩
  obtain ⟨s, hwrite, hs_endian, hs⟩ :=
    (Appending.new hbase heap little).writeAll host vs heap rfl
  obtain ⟨t, hseek, ht_endian, -, hsize, hposition, hready⟩ := hs.rewind
  obtain ⟨u, hread, husize, huposition⟩ :=
    readAll_of_ready host _ vs t (ht_endian.trans hs_endian) hready
  refine ⟨s, t, u, hwrite, hseek, hread, ?_⟩
  rw [ByteArray.getReadSize, husize, huposition, hsize, hposition, List.nil_append, Nat.zero_add,
    Nat.sub_self]

theorem typed_round_trip_extremes :
    ∃ s t u, ((ByteArray.new 3 fun _ => 0).setIsLittleEndian true).writeAll .little (fun _ => 0)
        [.int32 0x80000000#32, .fint16 0xABCD#16, .uint64 0xFFFFFFFFFFFFFFFF#64] = .ok s ∧
      s.setPosition 0 = .ok t ∧
      t.readAll .little [.int32, .fint16, .uint64] =
        .ok ([.int32 0x80000000#32, .fint16 0xABCD#16, .uint64 0xFFFFFFFFFFFFFFFF#64], u) ∧
      u.getReadSize = 0 :=
  (typed_round_trip .little true (by decide) (fun _ => 0) _).1

end CppServerFramework.Socket

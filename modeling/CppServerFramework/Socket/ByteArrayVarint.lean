import CppServerFramework.Misc.Leb128
import CppServerFramework.Socket.ByteArrayCounters

/-!
# Variable-length integers from any bytes

`readUint32` and `readUint64` accept whatever is in the array: integers that are longer than they
have to be, and bits that do not fit, which they drop.  `takeVarint` is brought into closed form
here, and the bytes that `writeUint32` and `writeUint64` put out are the shortest encoding.
-/

namespace CppServerFramework.Socket
open Blocks Leb128

/-- The place of the first byte below `0x80`, counted from 1, or `cap` where it is not reached. -/
def varintLength (cap : Nat) (bytes : List UInt8) : Nat :=
  min (bytes.findIdx (fun b => b.toNat < 0x80) + 1) cap

/-- `setPosition(position)`, a write, and what it has put there, read from the position on. -/
def ByteArray.writeBack (s : ByteArray) (position : Nat)
    (write : ByteArray → Except Error ByteArray) : Except Error (List UInt8) := do
  let s ← s.setPosition position
  let t ← write s
  let u ← t.setPosition position
  let (bytes, _) ← u.read (t.position - position)
  return bytes

/-- What a read of `w` bits makes of an array in which `bytes` are left, and what the write of the
    same width makes of the value. -/
structure DecodesVarint (w cap : Nat) (read : ByteArray → Except Error (BitVec w × ByteArray))
    (write : ByteArray → BitVec w → (Nat → UInt8) → Except Error ByteArray) (s : ByteArray)
    (bytes : List UInt8) : Prop where
  runsOut : bytes.length < varintLength cap bytes → read s = .error .outOfRange
  decodes : varintLength cap bytes ≤ bytes.length →
    ∃ t, read s = .ok (BitVec.ofNat w (value (bytes.take (varintLength cap bytes))), t) ∧
      t.position = s.position + varintLength cap bytes ∧
      t.toString = .ok (bytes.drop (varintLength cap bytes)) ∧ t.nodes = s.nodes ∧ t.size = s.size
  rewrites : varintLength cap bytes ≤ bytes.length →
    ∀ base, 0 < base → ∀ u, (updateMachine base).Reachable u → ∀ position ≤ u.capacity, ∀ heap,
      u.writeBack position (fun u =>
          write u (BitVec.ofNat w (value (bytes.take (varintLength cap bytes)))) heap) =
        .ok (bytes.take (varintLength cap bytes)) ↔
      ∃ x < 2 ^ w, Shortest (bytes.take (varintLength cap bytes)) x

variable {w : Nat} {host : Endian} {s t : ByteArray}

/-! ## The loop on a list -/

/-- A group put above the bits that are there. -/
theorem or_shift (hw : 8 ≤ w) {result : BitVec w} {i : Nat} (hi : i ≤ w)
    (hresult : result.toNat < 2 ^ i) (b : BitVec 8) :
    result ||| (b.setWidth w <<< i) = BitVec.ofNat w (result.toNat + 2 ^ i * b.toNat) := by
  have hb : b.toNat < 2 ^ w := b.isLt.trans_le (Nat.pow_le_pow_right (by decide) hw)
  have hpow : 2 ^ w = 2 ^ i * 2 ^ (w - i) := by
    rw [← Nat.pow_add, Nat.add_sub_cancel' hi]
  have hmod : (result.toNat + 2 ^ i * b.toNat) % 2 ^ i = result.toNat := by
    rw [Nat.add_mul_mod_self_left, Nat.mod_eq_of_lt hresult]
  have hdiv : (result.toNat + 2 ^ i * b.toNat) / 2 ^ i = b.toNat := by
    rw [Nat.add_mul_div_left _ _ (Nat.two_pow_pos i), Nat.div_eq_of_lt hresult, Nat.zero_add]
  -- the bits of the group that are shifted out are those that the sum loses
  have hshift : b.toNat * 2 ^ i % 2 ^ w = 2 ^ i * (b.toNat % 2 ^ (w - i)) := by
    rw [hpow, Nat.mul_comm, Nat.mul_mod_mul_left]
  have hsum : (result.toNat + 2 ^ i * b.toNat) % 2 ^ w =
      result.toNat + 2 ^ i * (b.toNat % 2 ^ (w - i)) := by
    rw [hpow, Nat.mod_mul, hmod, hdiv]
  apply BitVec.eq_of_toNat_eq
  rw [BitVec.toNat_or, BitVec.toNat_shiftLeft, BitVec.toNat_setWidth, Nat.mod_eq_of_lt hb,
    BitVec.toNat_ofNat, Nat.shiftLeft_eq, hshift, hsum, Nat.or_comm,
    ← Nat.two_pow_add_eq_or_of_lt hresult, Nat.add_comm]

theorem toNat_and_7F (b : UInt8) : (b.toBitVec &&& 0x7F#8).toNat = b.toNat % 128 := by
  rw [BitVec.toNat_and]
  exact Nat.and_two_pow_sub_one_eq_mod b.toNat 7

theorem varintLength_nil (cap : Nat) : varintLength (cap + 1) [] = 1 := by
  rw [varintLength, List.findIdx_nil, Nat.zero_add, Nat.min_eq_left (Nat.succ_pos cap)]

theorem varintLength_last (cap : Nat) {b : UInt8} (hb : b.toNat < 0x80) (bs : List UInt8) :
    varintLength (cap + 1) (b :: bs) = 1 := by
  rw [varintLength, List.findIdx_cons, decide_eq_true hb]
  exact Nat.min_eq_left (Nat.succ_pos cap)

theorem varintLength_more (cap : Nat) {b : UInt8} (hb : ¬b.toNat < 0x80) (bs : List UInt8) :
    varintLength (cap + 1) (b :: bs) = varintLength cap bs + 1 := by
  rw [varintLength, List.findIdx_cons, decide_eq_false hb, varintLength]
  exact Nat.add_min_add_right ..

/-- The loop takes the groups up to the first byte that ends an integer, or `cap` of them, and sums
    them up. -/
theorem takeVarint_eq (hw : 8 ≤ w) (cap : Nat) {i : Nat} {result : BitVec w}
    (hcap : ∀ n, i + 7 * n < w ↔ n < cap) (hresult : result.toNat < 2 ^ i) (bytes : List UInt8) :
    takeVarint i result bytes =
      if bytes.length < varintLength cap bytes then none
      else some (BitVec.ofNat w (result.toNat +
          2 ^ i * value (bytes.take (varintLength cap bytes))),
        bytes.drop (varintLength cap bytes)) := by
  induction cap generalizing i result bytes with
  | zero =>
    have hi : ¬i < w := fun hlt => absurd ((hcap 0).mp hlt) (Nat.lt_irrefl 0)
    have hzero : varintLength 0 bytes = 0 := Nat.min_zero _
    rw [hzero, if_neg (Nat.not_lt_zero _), List.take_zero, value_nil, Nat.mul_zero, Nat.add_zero,
      BitVec.ofNat_toNat, BitVec.setWidth_eq, List.drop_zero]
    cases bytes <;> rw [takeVarint, if_neg hi]
  | succ cap ih =>
    have hi : i < w := (hcap 0).mpr (Nat.succ_pos cap)
    cases bytes with
    | nil =>
      rw [takeVarint, if_pos hi, varintLength_nil]
      rfl
    | cons b bs =>
      rw [takeVarint, if_pos hi]
      by_cases hlast : b.toNat < 0x80
      · have hlength : ¬(b :: bs).length < 1 := Nat.not_lt.mpr (Nat.succ_pos _)
        rw [if_pos hlast, varintLength_last cap hlast, if_neg hlength, or_shift hw hi.le hresult]
        simp [Nat.mod_eq_of_lt hlast]
      · have hnext : (result ||| ((b.toBitVec &&& 0x7F#8).setWidth w <<< i)).toNat =
            (result.toNat + 2 ^ i * (b.toNat % 128)) % 2 ^ w := by
          rw [or_shift hw hi.le hresult, BitVec.toNat_ofNat, toNat_and_7F]
        have hpow : 2 ^ (i + 7) = 2 ^ i * 128 := Nat.pow_add 2 i 7
        have hbound : (result ||| ((b.toBitVec &&& 0x7F#8).setWidth w <<< i)).toNat <
            2 ^ (i + 7) := by
          have hgroup : 2 ^ i * (b.toNat % 128) ≤ 2 ^ i * 127 :=
            Nat.mul_le_mul_left _ (by omega)
          rw [hnext, hpow]
          refine (Nat.mod_le _ _).trans_lt ?_
          omega
        have hrest : ∀ n, i + 7 + 7 * n < w ↔ n < cap := by
          intro n
          have hn := hcap (n + 1)
          omega
        rw [if_neg hlast, ih hrest hbound bs, varintLength_more cap hlast, List.length_cons,
          List.take_succ_cons, List.drop_succ_cons, value_cons]
        simp only [Nat.add_lt_add_iff_right]
        congr 3
        apply BitVec.eq_of_toNat_eq
        rw [BitVec.toNat_ofNat, BitVec.toNat_ofNat, hnext, Nat.mod_add_mod, hpow, Nat.mul_add,
          Nat.mul_assoc, Nat.add_assoc]

/-! ## Reading -/

theorem toString_visible (h : Lagging s) : s.toString = .ok s.visible := by
  have hlength := length_visible h
  rw [ByteArray.toString]
  split
  · next hnone =>
    rw [hnone] at hlength
    rw [List.eq_nil_of_length_eq_zero hlength]
  · next hsome =>
    have hlt : s.position < s.capacity := by
      have := h.chain.size_le
      rw [ByteArray.getReadSize] at hsome
      omega
    obtain ⟨k, hk⟩ := h.cur_some hlt
    rw [readAt_eq h hk (Nat.le_refl _), ← hlength, List.take_length]

/-- Reading moves the cursor only. -/
theorem read_frame {n : Nat} {bytes : List UInt8} (hrun : s.read n = .ok (bytes, t)) :
    t.nodes = s.nodes ∧ t.size = s.size := by
  rw [ByteArray.read] at hrun
  split at hrun
  · cases hrun
  · obtain ⟨r, -, hrest⟩ := ok_of_bind hrun
    obtain ⟨r', -, hlast⟩ := ok_of_bind hrest
    cases hlast
    exact ⟨rfl, rfl⟩

theorem readVarint_frame {i : Nat} {result v : BitVec w}
    (hrun : s.readVarint host i result = .ok (v, t)) : t.nodes = s.nodes ∧ t.size = s.size := by
  induction hn : w - i using Nat.strong_induction_on generalizing s i result with
  | _ n ih =>
    rw [ByteArray.readVarint] at hrun
    split at hrun
    · obtain ⟨⟨b, u⟩, hbyte, hrest⟩ := ok_of_bind hrun
      obtain ⟨⟨bytes, u'⟩, hread, hlast⟩ := ok_of_bind hbyte
      cases hlast
      obtain ⟨hnodes, hsize⟩ := read_frame hread
      simp only [] at hrest
      split at hrest
      · cases hrest
        exact ⟨hnodes, hsize⟩
      · obtain ⟨hnodes', hsize'⟩ := ih (w - (i + 7)) (by omega) hrest rfl
        exact ⟨hnodes'.trans hnodes, hsize'.trans hsize⟩
    · cases hrun
      exact ⟨rfl, rfl⟩

/-! ## Writing -/

/-- The bytes of `writeUint32` and `writeUint64` are the shortest encoding. -/
theorem varintBytes_eq_encode (hw : 8 ≤ w) (v : BitVec w) : varintBytes v = encode v.toNat := by
  induction hn : v.toNat using Nat.strong_induction_on generalizing v with
  | _ n ih =>
    subst hn
    by_cases hlast : v.toNat < 0x80
    · rw [varintBytes_of_lt hlast, encode_of_lt hlast]
      congr 1
      apply UInt8.toNat_inj.mp
      rw [UInt8.toNat_ofBitVec, BitVec.toNat_setWidth, UInt8.toNat_ofNat']
    · have hpow : 2 ^ 8 ≤ 2 ^ w := Nat.pow_le_pow_right (by decide) hw
      have hshift : (v >>> 7).toNat = v.toNat / 128 := by
        rw [BitVec.toNat_ushiftRight, Nat.shiftRight_eq_div_pow]
      have hgroup : (v &&& 0x7F#w).toNat = v.toNat % 128 := by
        rw [BitVec.toNat_and, BitVec.toNat_ofNat, Nat.mod_eq_of_lt (by omega)]
        exact Nat.and_two_pow_sub_one_eq_mod v.toNat 7
      have hor : v.toNat % 128 ||| 0x80 = v.toNat % 128 + 128 := by
        have hsum := Nat.two_pow_add_eq_or_of_lt (i := 7) (Nat.mod_lt v.toNat (by decide)) 1
        rw [Nat.or_comm, ← hsum, Nat.add_comm]
      rw [varintBytes_of_le (Nat.not_lt.mp hlast), encode_of_le (Nat.not_lt.mp hlast),
        ih (v >>> 7).toNat (by omega) (v >>> 7) rfl, hshift]
      congr 1
      apply UInt8.toNat_inj.mp
      rw [UInt8.toNat_ofBitVec, BitVec.toNat_setWidth, BitVec.toNat_or, hgroup, BitVec.toNat_ofNat,
        Nat.mod_eq_of_lt (a := 0x80) (by omega), hor, UInt8.toNat_ofNat']

/-- What is written at a position is what is found there. -/
theorem writeBack_write (h : Lagging s) {position : Nat} (hposition : position ≤ s.capacity)
    {buf : List UInt8} (hne : buf ≠ []) (heap : Nat → UInt8) :
    s.writeBack position (fun u => u.write buf heap) = .ok buf := by
  obtain ⟨t, hseek, ht, hcur, -, hpos, -⟩ := setPosition_lagging h.chain hposition
  obtain ⟨u, hwrite, hu⟩ := write_spec ht.chain hcur hne heap
  have hend : u.position = position + buf.length := by rw [hu.position, hpos]
  have hsize : position + buf.length ≤ u.size := hend ▸ hu.chain.position_le
  have hback : position ≤ u.capacity := by
    have := hu.chain.size_le
    omega
  obtain ⟨v, hseek', hv, hcur', hnodes, hpos', hsize', -⟩ := setPosition_lagging hu.chain hback
  have hready : Ready v buf := by
    refine ⟨hv.chain, hcur', by omega, ?_⟩
    obtain ⟨fresh, hbytes⟩ := hu.bytes
    have hin : position ≤ (t.nodes.flatten ++ fresh).length := by
      have := ht.chain.length_flatten
      have := ht.position_le
      rw [List.length_append]
      omega
    rw [hnodes, hpos', hbytes, hpos]
    exact slice_overwrite hin
  rw [ByteArray.writeBack, hseek]
  simp only [bind, Except.bind, pure, Except.pure]
  rw [hwrite]
  simp only []
  rw [hseek', hend, Nat.add_sub_cancel_left]
  simp only []
  rw [hready.read hne]

/-! ## Any bytes -/

theorem decodesVarint (hw : 8 ≤ w) {cap : Nat} (hcap : ∀ n, 7 * n < w ↔ n < cap)
    {write : ByteArray → BitVec w → (Nat → UInt8) → Except Error ByteArray}
    (hwrite : ∀ u v heap, write u v heap = u.write (varintBytes v) heap) (h : Lagging s) :
    DecodesVarint w cap (fun s => s.readVarint host 0 0#w) write s s.visible := by
  have hzero : (0#w).toNat = 0 := BitVec.toNat_zero
  have hcap' : ∀ n, 0 + 7 * n < w ↔ n < cap := fun n => by rw [Nat.zero_add, hcap]
  have hresult' : (0#w).toNat < 2 ^ 0 := by rw [hzero]; exact Nat.two_pow_pos 0
  have htake := takeVarint_eq hw cap hcap' hresult' s.visible
  rw [hzero, Nat.zero_add, Nat.pow_zero, Nat.one_mul] at htake
  have hresult : (s.varintOutcome host 0 0#w).result = s.readVarint host 0 0#w :=
    result_varintOutcome 0 0#w
  refine ⟨fun hshort => ?_, fun hlong => ?_, fun _ base hbase u hu position hposition heap => ?_⟩
  · rw [if_pos hshort] at htake
    obtain ⟨t, hrun, -⟩ :
        ∃ t, s.varintOutcome host 0 0#w = (.error .outOfRange, t) ∧ t.visible = [] ∧ _ :=
      varintOutcome_none h htake
    rw [← hresult, hrun]
    rfl
  · rw [if_neg (Nat.not_lt.mpr hlong)] at htake
    obtain ⟨t, hrun, ht, hrest⟩ :
        ∃ t, s.varintOutcome host 0 0#w = (.ok _, t) ∧ Lagging t ∧ t.visible = _ :=
      varintOutcome_some h htake
    have hread : s.readVarint host 0 0#w =
        .ok (BitVec.ofNat w (value (s.visible.take (varintLength cap s.visible))), t) := by
      rw [← hresult, hrun]
      rfl
    obtain ⟨hnodes, hsize⟩ := readVarint_frame hread
    refine ⟨t, hread, ?_, ?_, hnodes, hsize⟩
    · have hleft := length_visible ht
      have hall := length_visible h
      have := ht.chain.position_le
      have := h.chain.position_le
      rw [hrest, List.length_drop, ByteArray.getReadSize] at hleft
      rw [ByteArray.getReadSize] at hall
      omega
    · rw [toString_visible ht, hrest]
  · have hlag := lagging_of_reach hbase hu
    simp only [hwrite]
    rw [writeBack_write hlag hposition (varintBytes_ne_nil _) heap, varintBytes_eq_encode hw,
      BitVec.toNat_ofNat, Except.ok.injEq]
    exact encode_value_iff _ (Nat.two_pow_pos w)

/-- In every reachable state, with whatever `toString` shows to be left, `readUint32` and
    `readUint64` throw where the bytes run out, and otherwise consume the bytes up to the first one
    below `0x80`, or 5 or 10 of them, for what their groups make up; writing that value puts these
    bytes back exactly where they are the shortest encoding of a value of the type. -/
theorem varint_decodes {base : Nat} (hbase : 0 < base) (h : (updateMachine base).Reachable s)
    (host : Endian) : ∃ bytes, s.toString = .ok bytes ∧
      DecodesVarint 32 5 (fun s => s.readUint32 host) ByteArray.writeUint32 s bytes ∧
      DecodesVarint 64 10 (fun s => s.readUint64 host) ByteArray.writeUint64 s bytes := by
  have hlag := lagging_of_reach hbase h
  refine ⟨s.visible, toString_visible hlag, ?_, ?_⟩
  · exact decodesVarint (by decide) (fun n => by omega) (fun _ _ _ => rfl) hlag
  · exact decodesVarint (by decide) (fun n => by omega) (fun _ _ _ => rfl) hlag

/-- 1 in three bytes, of which two are not needed, and a byte behind them. -/
def overlong : ByteArray :=
  ((updateMachine 4).run (.new 4 fun _ => 0)
    [(.write [0x81, 0x80, 0x00, 0x05], fun _ => 0), (.setPosition 0, fun _ => 0)]).getD
    (.new 4 fun _ => 0)

theorem overlong_reachable : (updateMachine 4).Reachable overlong := by
  refine .of_run [(.write [0x81, 0x80, 0x00, 0x05], fun _ => 0), (.setPosition 0, fun _ => 0)]
    (s := .new 4 fun _ => 0) ⟨_, rfl⟩ ?_
  rfl

theorem varint_decodes_overlong :
    ∃ t, overlong.readUint32 .little = .ok (1#32, t) ∧ t.position = 3 := by
  obtain ⟨bytes, hbytes, h32, -⟩ := varint_decodes (Nat.succ_pos 3) overlong_reachable .little
  have hall : overlong.toString = .ok [0x81, 0x80, 0x00, 0x05] := rfl
  cases hall.symm.trans hbytes
  obtain ⟨t, hread, hposition, -⟩ := h32.decodes (by decide)
  have hlength : varintLength 5 [0x81, 0x80, 0x00, 0x05] = 3 := by decide
  rw [hlength] at hread hposition
  have hvalue : value ([0x81, 0x80, 0x00, 0x05].take 3) = 1 := by simp
  rw [hvalue] at hread
  exact ⟨t, hread, hposition⟩

end CppServerFramework.Socket

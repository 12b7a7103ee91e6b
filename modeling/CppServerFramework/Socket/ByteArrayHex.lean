import CppServerFramework.Socket.ByteArrayPositioned
import CppServerFramework.Socket.ByteArrayVarint
import CppServerFramework.Socket.Ipv6Text

/-!
# The dump of a `ByteArray`

`toHexString` (`socket/bytearray.cpp:553-567`) writes the bytes that `toString` returns, two digits
and a space for each, in lines of 32.
-/

namespace CppServerFramework.Socket

open HTTP (Bytes ascii)

/-- `std::setw(2) << std::setfill('0') << std::hex << b << " "` -/
def hexByte (b : UInt8) : Bytes :=
  List.replicate (2 - (hexText b.toNat).length) 48 ++ hexText b.toNat ++ ascii " "

/-- The loop from the byte `i` on. -/
def hexLoop : (i : Nat) → (str : Bytes) → Bytes
  | _, [] => []
  | i, b :: str =>
    (if 0 < i ∧ i % 32 = 0 then ascii "\n" else []) ++ hexByte b ++ hexLoop (i + 1) str

/-- `ByteArray::toHexString` (`bytearray.cpp:553-567`). -/
def ByteArray.toHexString (s : ByteArray) : Except Error Bytes :=
  s.toString.map (hexLoop 0)

/-- Two digits for each byte, the first of which may have been read; spaces and ends of lines stand
    between the bytes. -/
def readHex : Option Nat → Bytes → Option Bytes
  | none, [] => some []
  | some _, [] => none
  | none, b :: text =>
    if b = 32 ∨ b = 10 then readHex none text
    else (hexValue b).bind fun high => readHex (some high) text
  | some high, b :: text => (hexValue b).bind fun low =>
      (readHex none text).map (UInt8.ofNat (16 * high + low) :: ·)

variable {s t : ByteArray} {b : UInt8} {i : Nat}

/-! ## Bytes -/

theorem hexByte_eq (b : UInt8) :
    hexByte b = [hexDigit (b.toNat / 16), hexDigit (b.toNat % 16), 32] := by
  have hb : b.toNat < 256 := b.toNat_lt
  have hspace : ascii " " = [32] := by decide
  rw [hexByte, hspace]
  generalize b.toNat = n at hb
  by_cases hzero : n = 0
  · subst hzero
    decide
  rw [hexText_digits hzero, Nat.digits_def' (by decide) (Nat.pos_of_ne_zero hzero)]
  by_cases hsmall : n / 16 = 0
  · rw [hsmall, Nat.digits_zero]
    rfl
  · have hlt : n / 16 < 16 := by omega
    rw [Nat.digits_of_lt 16 _ hsmall hlt]
    rfl

theorem hexDigit_visible {d : Nat} (hd : d < 16) : hexDigit d ≠ 32 ∧ hexDigit d ≠ 10 := by
  interval_cases d <;> decide

theorem readHex_hexByte (b : UInt8) (text : Bytes) :
    readHex none (hexByte b ++ text) = (readHex none text).map (b :: ·) := by
  have hhigh : b.toNat / 16 < 16 := by
    have : b.toNat < 256 := b.toNat_lt
    omega
  have hlow : b.toNat % 16 < 16 := Nat.mod_lt _ (by decide)
  have hvalue : UInt8.ofNat (16 * (b.toNat / 16) + b.toNat % 16) = b := by
    rw [Nat.div_add_mod, UInt8.ofNat_toNat]
  have hshown := hexDigit_visible hhigh
  rw [hexByte_eq, List.cons_append, readHex, if_neg (not_or.mpr hshown),
    hexValue_hexDigit hhigh, Option.bind_some, List.cons_append, readHex,
    hexValue_hexDigit hlow, Option.bind_some, hvalue]
  rfl

/-! ## The loop -/

theorem readHex_hexLoop (i : Nat) (str : Bytes) : readHex none (hexLoop i str) = some str := by
  induction str generalizing i with
  | nil => rfl
  | cons b str ih =>
    have hrest : readHex none (hexByte b ++ hexLoop (i + 1) str) = some (b :: str) := by
      rw [readHex_hexByte, ih]
      rfl
    have hend : ascii "\n" = [10] := by decide
    rw [hexLoop, List.append_assoc, hend]
    split
    · exact hrest
    · exact hrest

/-- A line. -/
theorem hexLoop_line {i : Nat} {str : Bytes} (hi : i = 0 ∨ i % 32 ≠ 0)
    (hlen : i % 32 + str.length ≤ 32) : hexLoop i str = str.flatMap hexByte := by
  induction str generalizing i with
  | nil => rfl
  | cons b str ih =>
    rw [List.length_cons] at hlen
    have hnot : ¬(0 < i ∧ i % 32 = 0) := by omega
    rw [hexLoop, if_neg hnot, List.nil_append, List.flatMap_cons]
    cases str with
    | nil => rfl
    | cons c str =>
      rw [List.length_cons] at hlen ih
      have hmod : (i + 1) % 32 = i % 32 + 1 := by omega
      rw [ih (by omega) (by omega)]

theorem hexLoop_append (i : Nat) (u v : Bytes) :
    hexLoop i (u ++ v) = hexLoop i u ++ hexLoop (i + u.length) v := by
  induction u generalizing i with
  | nil => rfl
  | cons b u ih =>
    rw [List.cons_append, hexLoop, hexLoop, ih, List.length_cons]
    simp only [List.append_assoc, Nat.add_right_comm, Nat.add_assoc]

/-- Where the loop stands counts up to whole lines. -/
theorem hexLoop_mod {i j : Nat} (hi : 0 < i) (hj : 0 < j) (hmod : i % 32 = j % 32) (str : Bytes) :
    hexLoop i str = hexLoop j str := by
  induction str generalizing i j with
  | nil => rfl
  | cons b str ih =>
    have hsucc : (i + 1) % 32 = (j + 1) % 32 := by
      rw [Nat.add_mod, hmod, ← Nat.add_mod]
    rw [hexLoop, hexLoop, ih (Nat.succ_pos i) (Nat.succ_pos j) hsucc, hmod]
    simp only [hi, hj, true_and]

theorem hexLoop_next (b : UInt8) (str : Bytes) :
    hexLoop 32 (b :: str) = 10 :: hexLoop 0 (b :: str) := by
  have hmod : hexLoop 33 str = hexLoop 1 str := hexLoop_mod (by decide) (by decide) (by decide) str
  rw [hexLoop, hexLoop, hmod, if_pos (by decide), if_neg (by decide)]
  rfl

theorem length_line (str : Bytes) : (str.flatMap hexByte).length = 3 * str.length := by
  induction str with
  | nil => rfl
  | cons b str ih =>
    rw [List.flatMap_cons, List.length_append, ih, hexByte_eq, List.length_cons]
    simp only [List.length_cons, List.length_nil]
    omega

theorem newline_not_mem_line (str : Bytes) : 10 ∉ str.flatMap hexByte := by
  intro h
  obtain ⟨b, -, hb⟩ := List.mem_flatMap.mp h
  have hlt : b.toNat < 256 := b.toNat_lt
  rw [hexByte_eq, List.mem_cons, List.mem_cons, List.mem_singleton] at hb
  rcases hb with hb | hb | hb
  · exact (hexDigit_visible (by omega)).2 hb.symm
  · exact (hexDigit_visible (Nat.mod_lt _ (by decide))).2 hb.symm
  · cases hb

/-- Each line is of 32 bytes at most. -/
theorem length_lines (str : Bytes) : ∀ line ∈ (hexLoop 0 str).splitOn 10, line.length ≤ 96 := by
  induction hn : str.length using Nat.strong_induction_on generalizing str with
  | _ n ih =>
    by_cases hlen : str.length ≤ 32
    · rw [hexLoop_line (.inl rfl) (by omega), List.splitOn_eq_singleton (newline_not_mem_line str)]
      intro line hline
      rw [List.mem_singleton.mp hline, length_line]
      omega
    · obtain ⟨b, rest, hrest⟩ := List.exists_cons_of_ne_nil
        (show str.drop 32 ≠ [] by simpa using hlen)
      have hfirst : (str.take 32).length = 32 := by
        rw [List.length_take]
        omega
      have hline : hexLoop 0 (str.take 32) = (str.take 32).flatMap hexByte :=
        hexLoop_line (.inl rfl) (by omega)
      have hsplit : hexLoop 0 str =
          (str.take 32).flatMap hexByte ++ 10 :: hexLoop 0 (b :: rest) := by
        have happend := hexLoop_append 0 (str.take 32) (b :: rest)
        rwa [← hrest, List.take_append_drop, hfirst, hrest, hline, Nat.zero_add,
          hexLoop_next] at happend
      rw [hsplit, List.splitOn_append_cons_self_of_not_mem (newline_not_mem_line _)]
      intro line hmem
      rcases List.mem_cons.mp hmem with rfl | hmem
      · rw [length_line, hfirst]
      · refine ih (b :: rest).length ?_ _ rfl line hmem
        rw [← hrest, List.length_drop]
        omega

/-! ## The dump of an array -/

/-- In every state of an array, the dump holds the bytes that reading all of it returns, in lines
    of 32 at most. -/
theorem toHexString_faithful {base : Nat} (hbase : 0 < base)
    (h : (updateMachine base).Reachable s) :
    ∃ text bytes, s.toHexString = .ok text ∧ readHex none text = some bytes ∧
      (∀ line ∈ text.splitOn 10, line.length ≤ 96) ∧ bytes.length = s.getReadSize ∧
        (0 < s.getReadSize → ∃ t, s.read s.getReadSize = .ok (bytes, t)) := by
  have hlag := lagging_of_reach hbase h
  refine ⟨hexLoop 0 s.visible, s.visible, ?_, readHex_hexLoop 0 _, length_lines _,
    length_visible hlag, fun hpos => ?_⟩
  · rw [ByteArray.toHexString, toString_visible hlag]
    rfl
  · obtain ⟨t, ht, -⟩ := read_visible hlag hpos (Nat.le_refl _)
    rw [List.take_of_length_le (length_visible hlag).le] at ht
    exact ⟨t, ht⟩

/-- The last two of six bytes. -/
theorem toHexString_faithful_sixBytes :
    (sixBytes 4).toHexString = .ok (ascii "05 06 ") ∧
      ∃ t, (sixBytes 4).read 2 = .ok ([5, 6], t) := by
  have hdump : (sixBytes 4).toHexString = .ok (ascii "05 06 ") := by decide
  obtain ⟨text, bytes, htext, hread, -, -, hbytes⟩ :=
    toHexString_faithful (by decide) (sixBytes_reachable 4)
  cases hdump.symm.trans htext
  have hvalue : readHex none (ascii "05 06 ") = some [5, 6] := by decide
  cases hread.symm.trans hvalue
  exact ⟨hdump, hbytes (by decide)⟩

end CppServerFramework.Socket

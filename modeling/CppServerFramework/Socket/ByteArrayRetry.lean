import CppServerFramework.Socket.ByteArrayReach
import CppServerFramework.Socket.ByteArrayString

/-!
# Reads that fail

`read` tests how much is left before it takes anything, and the fixed-width values are one `read`
each.  A variable-length integer is one `read` for each byte and a string one for its length and one
for its text, so that a call which fails behind the first of them has moved the cursor.
-/

namespace CppServerFramework.Socket
open Blocks

/-- What a call returns or throws, and the array as the call leaves it. -/
abbrev Outcome (α : Type) := Except Error α × ByteArray

namespace Outcome

variable {α β : Type}

def andThen (r : Outcome α) (f : α → ByteArray → Outcome β) : Outcome β :=
  match r with
  | (.ok a, t) => f a t
  | (.error e, t) => (.error e, t)

/-- What is left of it when an exception loses the array. -/
def result : Outcome α → Except Error (α × ByteArray)
  | (.ok a, t) => .ok (a, t)
  | (.error e, _) => .error e

theorem result_andThen (r : Outcome α) (f : α → ByteArray → Outcome β) :
    (r.andThen f).result = r.result.bind fun (a, t) => (f a t).result := by
  obtain ⟨r, t⟩ := r
  cases r <;> rfl

end Outcome

namespace ByteArray

variable {α : Type} (host : Endian)

/-- A call that changes the array only when it returns, as `read` does. -/
def atOnce (s : ByteArray) : Except Error (α × ByteArray) → Outcome α
  | .ok (a, t) => (.ok a, t)
  | .error e => (.error e, s)

/-- The loop of `readUint32` and `readUint64` (`bytearray.cpp:288-301`, `307-320`). -/
def varintOutcome {w : Nat} (s : ByteArray) (i : Nat) (result : BitVec w) :
    Outcome (BitVec w) :=
  if _h : i < w then
    (s.atOnce (s.readFuint8 host)).andThen fun b t =>
      if b.toNat < 0x80 then (.ok (result ||| (b.setWidth w <<< i)), t)
      else t.varintOutcome (i + 7) (result ||| ((b &&& 0x7F#8).setWidth w <<< i))
  else (.ok result, s)
termination_by w - i

/-- `readInt32` to `readUint64` (`bytearray.cpp:284-320`), and the values that are one `read`. -/
def valueOutcome (s : ByteArray) : Kind → Outcome Value
  | .int32 => (s.varintOutcome host 0 0#32).andThen fun v t => (.ok (.int32 (decodeZigzag v)), t)
  | .uint32 => (s.varintOutcome host 0 0#32).andThen fun v t => (.ok (.uint32 v), t)
  | .int64 => (s.varintOutcome host 0 0#64).andThen fun v t => (.ok (.int64 (decodeZigzag v)), t)
  | .uint64 => (s.varintOutcome host 0 0#64).andThen fun v t => (.ok (.uint64 v), t)
  | k => s.atOnce (s.readValue host k)

/-- The length of a string, as a number. -/
def lengthOutcome (s : ByteArray) : StringForm → Outcome Nat
  | .f16 => (s.atOnce (s.readFuint16 host)).andThen fun len t => (.ok len.toNat, t)
  | .f32 => (s.atOnce (s.readFuint32 host)).andThen fun len t => (.ok len.toNat, t)
  | .f64 => (s.atOnce (s.readFuint64 host)).andThen fun len t => (.ok len.toNat, t)
  | .vint => (s.varintOutcome host 0 0#64).andThen fun len t => (.ok len.toNat, t)

/-- `readStringF16` to `readStringVint` (`bytearray.cpp:336-366`). -/
def stringOutcome (s : ByteArray) (form : StringForm) : Outcome (List UInt8) :=
  (s.lengthOutcome host form).andThen fun len t => t.atOnce (t.read len)

def fieldOutcome (s : ByteArray) : FieldKind → Outcome Item
  | .value k => (s.valueOutcome host k).andThen fun v t => (.ok (.value v), t)
  | .string form => (s.stringOutcome host form).andThen fun bytes t => (.ok (.string bytes), t)

end ByteArray

/-! ## The same calls without the array they leave -/

variable {α : Type} {host : Endian} {s t : ByteArray} {w : Nat}

@[simp] theorem result_atOnce (r : Except Error (α × ByteArray)) : (s.atOnce r).result = r := by
  cases r <;> rfl

theorem result_varintOutcome (i : Nat) (result : BitVec w) :
    (s.varintOutcome host i result).result = s.readVarint host i result := by
  induction hn : w - i using Nat.strong_induction_on generalizing s i result with
  | _ n ih =>
    rw [ByteArray.varintOutcome, ByteArray.readVarint]
    by_cases hi : i < w
    · rw [dif_pos hi, dif_pos hi, Outcome.result_andThen, result_atOnce]
      simp only [bind, Except.bind]
      cases s.readFuint8 host with
      | error e => rfl
      | ok r =>
        obtain ⟨b, t⟩ := r
        simp only []
        split
        · rfl
        · exact ih (w - (i + 7)) (by omega) _ _ rfl
    · rw [dif_neg hi, dif_neg hi]
      rfl

/-! ## What is taken from the visible bytes -/

/-- The loop of `readUint32` and `readUint64` on a list: the value and the bytes behind it. -/
def takeVarint (i : Nat) (result : BitVec w) : List UInt8 → Option (BitVec w × List UInt8)
  | [] => if i < w then none else some (result, [])
  | b :: bs =>
    if i < w then
      if b.toNat < 0x80 then some (result ||| (b.toBitVec.setWidth w <<< i), bs)
      else takeVarint (i + 7) (result ||| ((b.toBitVec &&& 0x7F#8).setWidth w <<< i)) bs
    else some (result, b :: bs)

/-- `readFuint16` to `readFuint64` on a list. -/
def takeFixed (host endian : Endian) (byteswap : BitVec w → BitVec w) (bytes : List UInt8) :
    Option (BitVec w × List UInt8) :=
  if w / 8 ≤ bytes.length then
    let v := BitVec.ofNat w (fromMemory host (bytes.take (w / 8)))
    some (if endian = host then v else byteswap v, bytes.drop (w / 8))
  else none

/-- The length that bytes announce, and the bytes behind it. -/
def announced (host endian : Endian) (bytes : List UInt8) :
    StringForm → Option (Nat × List UInt8)
  | .f16 => (takeFixed host endian bswap16 bytes).map fun (len, rest) => (len.toNat, rest)
  | .f32 => (takeFixed host endian bswap32 bytes).map fun (len, rest) => (len.toNat, rest)
  | .f64 => (takeFixed host endian bswap64 bytes).map fun (len, rest) => (len.toNat, rest)
  | .vint => (takeVarint 0 0#64 bytes).map fun (len, rest) => (len.toNat, rest)

/-- A variable-length integer of at most `count` bytes has begun and does not end. -/
def OpenVarint (count : Nat) (bytes : List UInt8) : Prop :=
  bytes ≠ [] ∧ bytes.length < count ∧ ∀ b ∈ bytes, 0x80 ≤ b.toNat

/-- A part of the value, but not all of it, is there: an integer that does not end, or a length and
    less than the text that it announces. -/
def Torn (host endian : Endian) (bytes : List UInt8) : FieldKind → Prop
  | .value .int32 | .value .uint32 => OpenVarint 5 bytes
  | .value .int64 | .value .uint64 => OpenVarint 10 bytes
  | .value _ => False
  | .string form => form = .vint ∧ OpenVarint 10 bytes ∨
      ∃ n rest, announced host endian bytes form = some (n, rest) ∧ rest.length < n

/-- If the call ends because too few bytes are left, the array is as it was before the call. -/
def Retryable (host : Endian) (s : ByteArray) (kind : FieldKind) : Prop :=
  (s.fieldOutcome host kind).1 = .error .outOfRange → (s.fieldOutcome host kind).2 = s

theorem takeVarint_none_iff (i : Nat) (result : BitVec w) (bytes : List UInt8) :
    takeVarint i result bytes = none ↔
      i + 7 * bytes.length < w ∧ ∀ b ∈ bytes, 0x80 ≤ b.toNat := by
  induction bytes generalizing i result with
  | nil => simp [takeVarint]
  | cons b bs ih =>
    rw [takeVarint, List.length_cons, List.forall_mem_cons]
    by_cases hi : i < w
    · rw [if_pos hi]
      by_cases hlast : b.toNat < 0x80
      · rw [if_pos hlast]
        exact iff_of_false (by simp) fun h => absurd h.2.1 (by omega)
      · rw [if_neg hlast, ih]
        have hsum : i + 7 + 7 * bs.length = i + 7 * (bs.length + 1) := by omega
        rw [hsum]
        exact and_congr_right fun _ => (and_iff_right (by omega)).symm
    · rw [if_neg hi]
      exact iff_of_false (by simp) fun h => absurd h.1 (by omega)

theorem length_of_takeVarint {i : Nat} {result v : BitVec w} {bytes rest : List UInt8} (hi : i < w)
    (h : takeVarint i result bytes = some (v, rest)) : rest.length < bytes.length := by
  induction bytes generalizing i result with
  | nil =>
    rw [takeVarint, if_pos hi] at h
    cases h
  | cons b bs ih =>
    rw [takeVarint, if_pos hi] at h
    split at h
    · cases h
      exact Nat.lt_succ_self _
    · by_cases hnext : i + 7 < w
      · exact (ih hnext h).trans (Nat.lt_succ_self _)
      · cases bs <;>
        · rw [takeVarint, if_neg hnext] at h
          cases h
          exact Nat.lt_succ_self _

/-! ## The calls on the visible bytes -/

theorem read_beyond (h : Lagging s) {n : Nat} (hn : s.visible.length < n) :
    s.read n = .error .outOfRange := by
  rw [length_visible h] at hn
  rw [ByteArray.read, if_pos hn]

theorem read_take (h : Lagging s) {n : Nat} (hpos : 0 < n) (hn : n ≤ s.visible.length) :
    ∃ t, s.read n = .ok (s.visible.take n, t) ∧ Lagging t ∧ t.visible = s.visible.drop n := by
  rw [length_visible h] at hn
  obtain ⟨t, hread, ht, hvisible, -⟩ := read_visible h hpos hn
  exact ⟨t, hread, ht, hvisible⟩

theorem fromMemory_one (host : Endian) (b : UInt8) :
    BitVec.ofNat 8 (fromMemory host [b]) = b.toBitVec := by
  have hone := memory_one host b.toBitVec
  rw [UInt8.ofBitVec_toBitVec] at hone
  rw [← hone, fromMemory_memory]
  simp

theorem readFuint8_nil (h : Lagging s) (hv : s.visible = []) :
    s.readFuint8 host = .error .outOfRange := by
  rw [ByteArray.readFuint8, ByteArray.readMemory, read_beyond h (by simp [hv])]
  rfl

theorem readFuint8_cons (h : Lagging s) {b : UInt8} {bs : List UInt8} (hv : s.visible = b :: bs) :
    ∃ t, s.readFuint8 host = .ok (b.toBitVec, t) ∧ Lagging t ∧ t.visible = bs := by
  obtain ⟨t, hread, ht, hvisible⟩ := read_take h (n := 8 / 8) (by decide) (by simp [hv])
  rw [hv] at hread hvisible
  refine ⟨t, ?_, ht, hvisible⟩
  rw [ByteArray.readFuint8, ByteArray.readMemory, hread]
  simp only [bind, Except.bind, pure, Except.pure]
  rw [show (b :: bs).take (8 / 8) = [b] from rfl, fromMemory_one]

/-- An integer that ends is taken from the visible bytes. -/
theorem varintOutcome_some {i : Nat} {result v : BitVec w} {rest : List UInt8} (h : Lagging s)
    (htake : takeVarint i result s.visible = some (v, rest)) :
    ∃ t, s.varintOutcome host i result = (.ok v, t) ∧ Lagging t ∧ t.visible = rest := by
  induction hv : s.visible generalizing s i result with
  | nil =>
    rw [hv, takeVarint] at htake
    split at htake
    · cases htake
    · next hi =>
      cases htake
      rw [ByteArray.varintOutcome, dif_neg hi]
      exact ⟨s, rfl, h, hv⟩
  | cons b bs ih =>
    rw [hv, takeVarint] at htake
    rw [ByteArray.varintOutcome]
    by_cases hi : i < w
    · rw [if_pos hi] at htake
      obtain ⟨t, hread, ht, hrest⟩ := readFuint8_cons h hv
      rw [dif_pos hi, hread]
      simp only [ByteArray.atOnce, Outcome.andThen, UInt8.toNat_toBitVec]
      split at htake
      · next hlast =>
        rw [if_pos hlast]
        cases htake
        exact ⟨t, rfl, ht, hrest⟩
      · next hlast =>
        rw [if_neg hlast]
        rw [← hrest] at htake
        exact ih ht htake hrest
    · rw [if_neg hi] at htake
      cases htake
      rw [dif_neg hi]
      exact ⟨s, rfl, h, hv⟩

/-- An integer that does not end takes all of them. -/
theorem varintOutcome_none {i : Nat} {result : BitVec w} (h : Lagging s)
    (htake : takeVarint i result s.visible = none) :
    ∃ t, s.varintOutcome host i result = (.error .outOfRange, t) ∧ t.visible = [] ∧
      (s.visible = [] → t = s) := by
  induction hv : s.visible generalizing s i result with
  | nil =>
    rw [hv, takeVarint] at htake
    split at htake
    · next hi =>
      rw [ByteArray.varintOutcome, dif_pos hi, readFuint8_nil h hv]
      exact ⟨s, rfl, hv, fun _ => rfl⟩
    · cases htake
  | cons b bs ih =>
    rw [hv, takeVarint] at htake
    rw [ByteArray.varintOutcome]
    by_cases hi : i < w
    · rw [if_pos hi] at htake
      obtain ⟨t, hread, ht, hrest⟩ := readFuint8_cons h hv
      rw [dif_pos hi, hread]
      simp only [ByteArray.atOnce, Outcome.andThen, UInt8.toNat_toBitVec]
      split at htake
      · cases htake
      · next hlast =>
        rw [if_neg hlast]
        rw [← hrest] at htake
        obtain ⟨u, hu, hempty, -⟩ := ih ht htake hrest
        exact ⟨u, hu, hempty, fun hnil => by cases hnil⟩
    · rw [if_neg hi] at htake
      cases htake

theorem readFixed_take {byteswap : BitVec w → BitVec w} (h : Lagging s) (hw : 0 < w / 8)
    {v : BitVec w} {rest : List UInt8}
    (htake : takeFixed host s.endian byteswap s.visible = some (v, rest)) :
    (∃ t, s.readFixed host byteswap = .ok (v, t) ∧ Lagging t ∧ t.visible = rest) ∧
      rest.length < s.visible.length := by
  rw [takeFixed] at htake
  split at htake
  · next hlen =>
    rw [length_visible h] at hlen
    obtain ⟨t, hread, ht, hvisible, -, -, hendian⟩ := read_visible h hw hlen
    cases htake
    refine ⟨⟨t, ?_, ht, hvisible⟩, ?_⟩
    · rw [ByteArray.readFixed, ByteArray.readMemory, hread]
      simp only [bind, Except.bind, pure, Except.pure, hendian]
    · rw [List.length_drop, length_visible h]
      omega
  · cases htake

theorem readFixed_beyond {byteswap : BitVec w → BitVec w} (h : Lagging s)
    (htake : takeFixed host s.endian byteswap s.visible = none) :
    s.readFixed host byteswap = .error .outOfRange := by
  rw [takeFixed] at htake
  split at htake
  · cases htake
  · next hlen =>
    rw [ByteArray.readFixed, ByteArray.readMemory, read_beyond h (by omega)]
    rfl

/-- A length that is there is taken. -/
theorem lengthOutcome_some (h : Lagging s) {form : StringForm} {n : Nat} {rest : List UInt8}
    (htake : announced host s.endian s.visible form = some (n, rest)) :
    (∃ t, s.lengthOutcome host form = (.ok n, t) ∧ Lagging t ∧ t.visible = rest) ∧
      rest.length < s.visible.length := by
  cases form with
  | f16 | f32 | f64 =>
    obtain ⟨⟨v, rest⟩, hfixed, heq⟩ := Option.map_eq_some_iff.mp htake
    cases heq
    obtain ⟨⟨t, hread, ht⟩, hless⟩ := readFixed_take h (by decide) hfixed
    refine ⟨⟨t, ?_, ht⟩, hless⟩
    simp only [ByteArray.lengthOutcome, ByteArray.readFuint16, ByteArray.readFuint32,
      ByteArray.readFuint64, hread, ByteArray.atOnce, Outcome.andThen]
  | vint =>
    obtain ⟨⟨v, rest⟩, hvarint, heq⟩ := Option.map_eq_some_iff.mp htake
    cases heq
    obtain ⟨t, hread, ht⟩ := varintOutcome_some h hvarint
    refine ⟨⟨t, ?_, ht⟩, length_of_takeVarint (by decide) hvarint⟩
    rw [ByteArray.lengthOutcome, hread]
    rfl

/-- A fixed-width length that is not there is not begun. -/
theorem lengthOutcome_none (h : Lagging s) {form : StringForm}
    (htake : announced host s.endian s.visible form = none) :
    ∃ t, s.lengthOutcome host form = (.error .outOfRange, t) ∧
      (t = s ↔ (form = .vint → s.visible = [])) := by
  cases form with
  | f16 | f32 | f64 =>
    have hread := readFixed_beyond h (Option.map_eq_none_iff.mp htake)
    refine ⟨s, ?_, by simp⟩
    simp only [ByteArray.lengthOutcome, ByteArray.readFuint16, ByteArray.readFuint32,
      ByteArray.readFuint64, hread, ByteArray.atOnce, Outcome.andThen]
  | vint =>
    obtain ⟨t, hread, hempty, hsame⟩ := varintOutcome_none h (Option.map_eq_none_iff.mp htake)
    refine ⟨t, ?_, fun heq _ => heq ▸ hempty, fun hnil => hsame (hnil rfl)⟩
    rw [ByteArray.lengthOutcome, hread]
    rfl

/-! ## Calls that can be repeated -/

/-- What is made of the value changes neither whether the call fails nor how it leaves the array. -/
theorem andThen_ok_fails {β : Type} (r : Outcome α) (f : α → β) :
    ((r.andThen fun a t => (.ok (f a), t)).1 = .error .outOfRange ↔ r.1 = .error .outOfRange) ∧
      (r.andThen fun a t => (.ok (f a), t)).2 = r.2 := by
  obtain ⟨r, t⟩ := r
  cases r <;> simp [Outcome.andThen]

theorem atOnce_keeps (r : Except Error (α × ByteArray))
    (hfail : (s.atOnce r).1 = .error .outOfRange) : (s.atOnce r).2 = s := by
  cases r with
  | error e => rfl
  | ok r => cases hfail

theorem varint_retryable_iff (h : Lagging s) {count : Nat}
    (hcount : ∀ n, 7 * n < w ↔ n < count) :
    ((s.varintOutcome host 0 0#w).1 = .error .outOfRange → (s.varintOutcome host 0 0#w).2 = s) ↔
      ¬OpenVarint count s.visible := by
  have hopen : OpenVarint count s.visible ↔
      s.visible ≠ [] ∧ takeVarint 0 0#w s.visible = none := by
    rw [takeVarint_none_iff, Nat.zero_add, hcount, OpenVarint]
  rw [hopen]
  cases htake : takeVarint 0 0#w s.visible with
  | some r =>
    obtain ⟨v, rest⟩ := r
    obtain ⟨t, hrun, -⟩ := varintOutcome_some h htake
    rw [hrun]
    simp
  | none =>
    obtain ⟨t, hrun, hempty, hsame⟩ := varintOutcome_none h htake
    rw [hrun]
    simp only [true_imp_iff, ne_eq, and_true, not_not]
    exact ⟨fun heq => heq ▸ hempty, hsame⟩

theorem string_retryable_iff (h : Lagging s) (form : StringForm) :
    ((s.stringOutcome host form).1 = .error .outOfRange → (s.stringOutcome host form).2 = s) ↔
      ¬Torn host s.endian s.visible (.string form) := by
  rw [ByteArray.stringOutcome, Torn]
  cases htake : announced host s.endian s.visible form with
  | none =>
    obtain ⟨t, hrun, hsame⟩ := lengthOutcome_none h htake
    rw [hrun]
    simp only [Outcome.andThen, true_imp_iff, reduceCtorEq, false_and, exists_const, or_false,
      hsame, not_and]
    refine forall_congr' fun hvint => ?_
    subst hvint
    have hnone := (takeVarint_none_iff ..).mp (Option.map_eq_none_iff.mp htake)
    constructor
    · exact fun hempty hopen => hopen.1 hempty
    · intro hopen
      by_contra hne
      exact hopen ⟨hne, by omega, hnone.2⟩
  | some r =>
    obtain ⟨n, rest⟩ := r
    obtain ⟨⟨t, hrun, ht, hvisible⟩, hless⟩ := lengthOutcome_some h htake
    have hmoved : t ≠ s := by
      rintro rfl
      rw [hvisible] at hless
      omega
    have hended : ¬(form = .vint ∧ OpenVarint 10 s.visible) := by
      rintro ⟨rfl, -, hlen, hall⟩
      have hnone : takeVarint 0 0#64 s.visible = none :=
        (takeVarint_none_iff ..).mpr ⟨by omega, hall⟩
      rw [announced, hnone] at htake
      cases htake
    rw [hrun]
    simp only [Outcome.andThen, hended, false_or, Option.some.injEq, Prod.mk.injEq]
    constructor
    · rintro hkeeps ⟨_, _, ⟨rfl, rfl⟩, hshort⟩
      rw [read_beyond ht (by rw [hvisible]; exact hshort)] at hkeeps
      exact hmoved (hkeeps rfl)
    · intro hlong hfail
      exfalso
      have hroom : n ≤ t.visible.length := by
        by_contra hnot
        exact hlong ⟨n, rest, ⟨rfl, rfl⟩, by rw [← hvisible]; omega⟩
      rcases Nat.eq_zero_or_pos n with rfl | hpos
      · rw [read_none ht.chain] at hfail
        split at hfail <;> cases hfail
      · obtain ⟨u, hread, -⟩ := read_take ht hpos hroom
        rw [hread] at hfail
        cases hfail

theorem retryable_iff_torn (h : Lagging s) (kind : FieldKind) :
    Retryable host s kind ↔ ¬Torn host s.endian s.visible kind := by
  cases kind with
  | value k =>
    rw [Retryable, ByteArray.fieldOutcome, (andThen_ok_fails _ _).1, (andThen_ok_fails _ _).2]
    cases k with
    | int32 | uint32 =>
      rw [ByteArray.valueOutcome, (andThen_ok_fails _ _).1, (andThen_ok_fails _ _).2]
      exact varint_retryable_iff h fun n => by omega
    | int64 | uint64 =>
      rw [ByteArray.valueOutcome, (andThen_ok_fails _ _).1, (andThen_ok_fails _ _).2]
      exact varint_retryable_iff h fun n => by omega
    | _ => exact iff_of_true (atOnce_keeps _) not_false
  | string form =>
    rw [Retryable, ByteArray.fieldOutcome, (andThen_ok_fails _ _).1, (andThen_ok_fails _ _).2]
    exact string_retryable_iff h form

/-! ## Reachable arrays -/

variable {base : Nat}

/-- The call leaves a reachable array reachable, as long as it does not use a null node. -/
def Outcome.Stays (base : Nat) (r : Outcome α) : Prop :=
  r.1 ≠ .error .nullNode → (updateMachine base).Reachable r.2

theorem Outcome.Stays.andThen {β : Type} {r : Outcome α} (h : r.Stays base)
    {f : α → ByteArray → Outcome β}
    (hf : ∀ a t, (updateMachine base).Reachable t → (f a t).Stays base) :
    (r.andThen f).Stays base := by
  obtain ⟨r, t⟩ := r
  cases r with
  | ok a => exact hf a t (h (by simp))
  | error e => exact fun hne => h fun heq => hne (by simpa [Outcome.andThen] using heq)

/-- A call that is one `read`. -/
theorem stays_of_read (h : (updateMachine base).Reachable s) {n : Nat}
    {f : List UInt8 → ByteArray → α} {r : Except Error (α × ByteArray)}
    (hr : r = (s.read n).map fun (bytes, t) => (f bytes t, t)) : (s.atOnce r).Stays base := by
  intro _
  subst hr
  cases hrun : s.read n with
  | error e => exact h
  | ok r =>
    obtain ⟨bytes, t⟩ := r
    refine .step h trivial (a := (.read n, fun _ => 0)) ?_
    simp only [updateMachine, ByteArray.update, hrun]
    rfl

theorem stays_readMemory (h : (updateMachine base).Reachable s) (w : Nat) :
    (s.atOnce (s.readMemory host w)).Stays base := by
  refine stays_of_read h (n := w / 8) (f := fun bytes _ => .ofNat w (fromMemory host bytes)) ?_
  rw [ByteArray.readMemory]
  cases s.read (w / 8) <;> rfl

theorem stays_readFixed (h : (updateMachine base).Reachable s)
    (byteswap : BitVec w → BitVec w) : (s.atOnce (s.readFixed host byteswap)).Stays base := by
  refine stays_of_read h (n := w / 8) (f := fun bytes t =>
    if t.endian = host then .ofNat w (fromMemory host bytes)
    else byteswap (.ofNat w (fromMemory host bytes))) ?_
  rw [ByteArray.readFixed, ByteArray.readMemory]
  cases s.read (w / 8) <;> rfl

theorem stays_varintOutcome (h : (updateMachine base).Reachable s) (i : Nat)
    (result : BitVec w) : (s.varintOutcome host i result).Stays base := by
  induction hn : w - i using Nat.strong_induction_on generalizing s i result with
  | _ n ih =>
    rw [ByteArray.varintOutcome]
    split
    · refine (stays_readMemory h 8).andThen fun b t ht => ?_
      split
      · exact fun _ => ht
      · exact ih (w - (i + 7)) (by omega) ht _ _ rfl
    · exact fun _ => h

theorem stays_tagged {f : α → Value} {r : Except Error (α × ByteArray)}
    (h : (s.atOnce r).Stays base) : (s.atOnce (ByteArray.tagged f r)).Stays base := by
  intro hne
  cases r with
  | error e => exact h (fun heq => hne (by cases heq; rfl))
  | ok r => exact h (by simp [ByteArray.atOnce])

/-- A typed read leaves a reachable array reachable, whether it fails or not. -/
theorem stays_fieldOutcome (h : (updateMachine base).Reachable s) (kind : FieldKind) :
    (s.fieldOutcome host kind).Stays base := by
  cases kind with
  | value k =>
    refine Outcome.Stays.andThen ?_ fun v t ht _ => ht
    cases k with
    | int32 | uint32 | int64 | uint64 =>
      exact (stays_varintOutcome h 0 _).andThen fun v t ht _ => ht
    | fint8 | fuint8 => exact stays_tagged (stays_readMemory h 8)
    | _ => exact stays_tagged (stays_readFixed h _)
  | string form =>
    refine Outcome.Stays.andThen (.andThen ?_ fun len t ht => ?_) fun v t ht _ => ht
    · cases form with
      | vint => exact (stays_varintOutcome h 0 _).andThen fun v t ht _ => ht
      | _ => exact (stays_readFixed h _).andThen fun v t ht _ => ht
    · refine stays_of_read ht (n := len) (f := fun bytes _ => bytes) ?_
      cases t.read len <;> rfl

/-- In every reachable state, a typed read that fails because too few bytes are left has consumed
    nothing, unless a part of its value was there. -/
theorem retryable_iff {base : Nat} (hbase : 0 < base) (h : (updateMachine base).Reachable s)
    (host : Endian) (kind : FieldKind) :
    Retryable host s kind ↔ ¬Torn host s.endian s.visible kind :=
  retryable_iff_torn (lagging_of_reach hbase h) kind

/-- One byte is left, and no length is begun. -/
theorem retryable_sixBytes : Retryable .little (sixBytes 5) (.string .f16) := by
  have hnone : announced .little (sixBytes 5).endian (sixBytes 5).visible .f16 = none := rfl
  refine (retryable_iff (Nat.succ_pos 3) (sixBytes_reachable 5) .little (.string .f16)).mpr ?_
  rintro (⟨hform, -⟩ | ⟨n, rest, hsome, -⟩)
  · cases hform
  · cases hnone.symm.trans hsome

/-- The first two bytes announce a text of 258 bytes, and the cursor stays behind them. -/
theorem string_length_consumed :
    (updateMachine 4).Reachable (sixBytes 0) ∧
      (sixBytes 0).fieldOutcome .little (.string .f16) = (.error .outOfRange, sixBytes 2) ∧
      (sixBytes 2).position = 2 ∧ ¬Retryable .little (sixBytes 0) (.string .f16) := by
  have hrun : (sixBytes 0).fieldOutcome .little (.string .f16) =
      (.error .outOfRange, sixBytes 2) := rfl
  refine ⟨sixBytes_reachable 0, hrun, rfl, fun h => ?_⟩
  have hkept := h (by rw [hrun])
  rw [hrun] at hkept
  exact absurd (congrArg ByteArray.position hkept) (by decide)

end CppServerFramework.Socket

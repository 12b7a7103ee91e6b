import CppServerFramework.HTTP.HeadParts
import Mathlib.Data.List.TakeWhile
import Mathlib.Tactic.Ring

/-!
# The line in front of a chunk

Every call of the parser for such a line starts anew, so that only the digits count that come with
the end of the line.
-/

namespace CppServerFramework.HTTP
open CInt Blocks ResponseAction ResponseParser

/-! ## Chunk sizes -/

def isHexDigit (b : UInt8) : Bool := digitOf b < 16

def hexValue (h : Bytes) : Nat := h.foldl (fun n b => 16 * n + digitOf b) 0

/-- The `content_len` behind a chunk size. -/
def contentLen (h : Bytes) : Int := intOfLong (min (2 ^ 63 - 1) (hexValue h : Int))

variable {h w y g : Bytes}

/-- What the digits have in common, byte by byte. -/
theorem hexDigit_ofNat : ∀ n < 256, isHexDigit (UInt8.ofNat n) = true →
    (httpclientParserScanner.next 1 (UInt8.ofNat n) = (2, [.mark]) ∧
      httpclientParserScanner.next 2 (UInt8.ofNat n) = (2, [])) ∧
    isSpace (UInt8.ofNat n) = false ∧ UInt8.ofNat n ∉ [43, 45, 88, 120] ∧
    (digitOf (UInt8.ofNat n) = 0 ↔ UInt8.ofNat n = 48) := by
  decide +kernel

theorem hexDigit_facts {b : UInt8} (hb : isHexDigit b = true) :
    (httpclientParserScanner.next 1 b = (2, [.mark]) ∧
      httpclientParserScanner.next 2 b = (2, [])) ∧
    isSpace b = false ∧ b ∉ ([43, 45, 88, 120] : Bytes) ∧ (digitOf b = 0 ↔ b = 48) := by
  have hall := hexDigit_ofNat b.toNat b.toNat_lt
  rw [UInt8.ofNat_toNat] at hall
  exact hall hb

theorem foldl_hex (h : Bytes) (n : Nat) :
    h.foldl (fun n b => 16 * n + digitOf b) n = n * 16 ^ h.length + hexValue h := by
  induction h generalizing n with
  | nil => simp [hexValue]
  | cons b h ih =>
    rw [hexValue, List.foldl_cons, List.foldl_cons, ih, ih (16 * 0 + digitOf b), List.length_cons,
      pow_succ]
    ring

theorem hexValue_append (h w : Bytes) :
    hexValue (h ++ w) = hexValue h * 16 ^ w.length + hexValue w := by
  rw [hexValue, List.foldl_append, foldl_hex w]
  rfl

theorem hexValue_drop (h : Bytes) (m : Nat) :
    hexValue h = hexValue (h.take m) * 16 ^ (h.drop m).length + hexValue (h.drop m) := by
  rw [← hexValue_append, List.take_append_drop]

theorem hexValue_drop_le (h : Bytes) (m : Nat) : hexValue (h.drop m) ≤ hexValue h := by
  rw [hexValue_drop h m]
  exact Nat.le_add_left _ _

theorem hexValue_eq_zero (hh : ∀ b ∈ h, isHexDigit b = true) :
    hexValue h = 0 ↔ ∀ b ∈ h, b = 48 := by
  induction h with
  | nil => simp [hexValue]
  | cons b h ih =>
    rw [List.forall_mem_cons] at hh
    have hcons : hexValue (b :: h) = digitOf b * 16 ^ h.length + hexValue h := by
      rw [← List.singleton_append, hexValue_append]
      simp [hexValue]
    obtain ⟨-, -, -, hdigit⟩ := hexDigit_facts hh.1
    rw [hcons, List.forall_mem_cons, ← hdigit, ← ih hh.2]
    have hpow : 0 < 16 ^ h.length := Nat.pow_pos (by decide)
    constructor
    · intro hsum
      obtain ⟨hmul, hrest⟩ := Nat.add_eq_zero_iff.mp hsum
      exact ⟨(Nat.mul_eq_zero.mp hmul).resolve_right hpow.ne', hrest⟩
    · intro ⟨hzero, hrest⟩
      rw [hzero, hrest, Nat.zero_mul]

/-- The digits that are left have the value of all exactly if the others are zeros. -/
theorem hexValue_drop_eq (hh : ∀ b ∈ h, isHexDigit b = true) (m : Nat) :
    hexValue (h.drop m) = hexValue h ↔ ∀ b ∈ h.take m, b = 48 := by
  rw [← hexValue_eq_zero fun b hb => hh b (List.mem_of_mem_take hb), hexValue_drop h m]
  have hpow : 0 < 16 ^ (h.drop m).length := Nat.pow_pos (by decide)
  constructor
  · intro heq
    have hzero : hexValue (h.take m) * 16 ^ (h.drop m).length = 0 := by omega
    exact (Nat.mul_eq_zero.mp hzero).resolve_right hpow.ne'
  · intro hzero
    rw [hzero, Nat.zero_mul, Nat.zero_add]

theorem contentLen_le (h : Bytes) : contentLen h ≤ hexValue h := by
  rw [contentLen, intOfLong, Int.bmod]
  split <;> omega

theorem contentLen_of_lt (hlt : hexValue h < 2 ^ 31) : contentLen h = hexValue h := by
  rw [contentLen, intOfLong, Int.bmod]
  split <;> omega

/-- `strtol` reads the digits in front of a carriage return. -/
theorem strtol_hex (hne : h ≠ []) (hh : ∀ b ∈ h, isHexDigit b = true) (w : Bytes) :
    strtol (h ++ 13 :: w) 16 = min (2 ^ 63 - 1) (hexValue h : Int) := by
  have hdigits : (h ++ 13 :: w).takeWhile (fun b => decide (digitOf b < 16)) = h := by
    rw [takeWhile_stop (by decide)]
    exact List.takeWhile_eq_self_iff.mpr hh
  obtain ⟨b, v, rfl⟩ := List.exists_cons_of_ne_nil hne
  rw [List.forall_mem_cons] at hh
  obtain ⟨-, hspace, hsign, -⟩ := hexDigit_facts hh.1
  simp only [List.mem_cons, List.not_mem_nil, or_false, not_or] at hsign
  have hstart : signOf ((b :: v ++ 13 :: w).dropWhile isSpace) = (1, b :: v ++ 13 :: w) := by
    rw [List.cons_append, List.dropWhile_cons_of_neg (by simp [hspace]), signOf.eq_3]
    · intro m heq
      exact hsign.2.1 (List.cons.inj heq).1
    · intro m heq
      exact hsign.1 (List.cons.inj heq).1
  have hstarts : ¬((b :: v ++ 13 :: w).take 2 = ascii "0x" ∨
      (b :: v ++ 13 :: w).take 2 = ascii "0X") := by
    cases v with
    | nil =>
      rintro (heq | heq) <;> exact absurd (List.cons.inj (List.cons.inj heq).2).1 (by decide)
    | cons d v =>
      rw [List.forall_mem_cons] at hh
      obtain ⟨-, -, hd, -⟩ := hexDigit_facts hh.2.1
      simp only [List.mem_cons, List.not_mem_nil, or_false, not_or] at hd
      rintro (heq | heq)
      · exact hd.2.2.2 (List.cons.inj (List.cons.inj heq).2).1
      · exact hd.2.2.1 (List.cons.inj (List.cons.inj heq).2).1
  have hvalue : ((b :: v).foldl (fun n b => 16 * n + digitOf b) 0 : Nat) = hexValue (b :: v) := rfl
  rw [strtol, hstart]
  simp only [hstarts, and_false, if_false, hdigits, hvalue]
  omega

/-! ## The scan of a line -/

theorem scan_digits (hh : ∀ b ∈ h, isHexDigit b = true) (p : Nat) (w : Bytes) :
    httpclientParserScanner.scan 2 p (h ++ w) =
      httpclientParserScanner.scan 2 (p + h.length) w := by
  induction h generalizing p with
  | nil => rfl
  | cons b h ih =>
    rw [List.forall_mem_cons] at hh
    obtain ⟨⟨-, hnext⟩, -⟩ := hexDigit_facts hh.1
    rw [List.cons_append, Scanner.scan, Scanner.breaksOn, hnext]
    simp only [List.any_nil, List.map_nil, Bool.false_eq_true, if_false, List.nil_append,
      show (2 : Nat) ≠ 0 by decide]
    rw [ih hh.2, List.length_cons, Nat.add_assoc, Nat.add_comm 1]

/-- The digits of a size are passed, and the first of them is marked. -/
theorem scan_size (hne : h ≠ []) (hh : ∀ b ∈ h, isHexDigit b = true) (w : Bytes) :
    httpclientParserScanner.scan 1 0 (h ++ w) =
      ⟨(httpclientParserScanner.scan 2 h.length w).state,
        (httpclientParserScanner.scan 2 h.length w).stop,
        (0, .mark) :: (httpclientParserScanner.scan 2 h.length w).events⟩ := by
  obtain ⟨b, v, rfl⟩ := List.exists_cons_of_ne_nil hne
  rw [List.forall_mem_cons] at hh
  obtain ⟨⟨hnext, -⟩, -⟩ := hexDigit_facts hh.1
  have hbreak : ¬httpclientParserScanner.breaks .mark = true := by decide
  rw [List.cons_append, Scanner.scan, Scanner.breaksOn, hnext]
  simp only [List.any_cons, List.any_nil, List.map_cons, List.map_nil, hbreak, Bool.or_false,
    Bool.false_eq_true, if_false, show (2 : Nat) ≠ 0 by decide]
  rw [scan_digits hh.2, List.length_cons, Nat.add_comm]
  rfl

theorem scan_return (p : Nat) :
    httpclientParserScanner.scan 2 p [13] = ⟨3, p + 1, [(p, .chunkSize)]⟩ := by
  have hnext : httpclientParserScanner.next 2 13 = (3, [.chunkSize]) := by decide
  have hbreak : ¬httpclientParserScanner.breaks .chunkSize = true := by decide
  rw [Scanner.scan, Scanner.breaksOn, hnext]
  simp [hbreak, Scanner.scan]

theorem scan_lineEnd (p : Nat) (y : Bytes) :
    httpclientParserScanner.scan 2 p (13 :: 10 :: y) =
      ⟨120, p + 2, [(p, .chunkSize), (p + 1, .done)]⟩ := by
  have hnext : httpclientParserScanner.next 2 13 = (3, [.chunkSize]) := by decide
  have hnext' : httpclientParserScanner.next 3 10 = (120, [.done]) := by decide
  have hbreak : ¬httpclientParserScanner.breaks .chunkSize = true := by decide
  have hbreak' : httpclientParserScanner.breaks .done = true := by decide
  rw [Scanner.scan, Scanner.breaksOn, hnext]
  simp only [List.any_cons, List.any_nil, hbreak, Bool.or_false, Bool.false_eq_true, if_false,
    show (3 : Nat) ≠ 0 by decide]
  rw [Scanner.scan, Scanner.breaksOn, hnext']
  simp [hbreak']

/-- A byte that no line begins with. -/
def refused (b : UInt8) : Prop := httpclientParserScanner.next 1 b = (0, [])

instance (b : UInt8) : Decidable (refused b) := inferInstanceAs (Decidable (_ = _))

theorem scan_refused {b : UInt8} (hb : refused b) (w : Bytes) :
    httpclientParserScanner.scan 1 0 (b :: w) = ⟨0, 0, []⟩ := by
  rw [refused] at hb
  rw [Scanner.scan, Scanner.breaksOn, hb]
  simp

/-! ## One call -/

namespace ResponseParser

variable {s u : ResponseParser} {es : List (Nat × ResponseAction)} {st n : Nat}

/-- A call that begins anew. -/
theorem execute_anew (hne : w ≠ []) (hlen : w.length < 2 ^ 31)
    (hscan : httpclientParserScanner.scan 1 0 w = ⟨st, n, es⟩)
    (hacts : s.init.clear.acts (w ++ 0 :: g) w.length es = .ok u) (hbody : u.bodyStart ≤ w.length)
    (hmark : u.mark = 0) (hfield : u.fieldLen = 0 ∧ u.fieldStart = 0) :
    s.execute (w ++ 0 :: g) w.length true = .ok ({ u with cs := st, nread := n },
      w.drop n ++ (w ++ 0 :: g).drop (w.length - n), n) := by
  have hpos := List.length_pos_iff.mpr hne
  have hscanned : s.init.scanned (w ++ 0 :: g) w.length = ⟨st, n, es⟩ := by
    rw [scanned, List.take_left, init]
    exact hscan
  have hstop := scanned_stop_le s.init (w ++ 0 :: g) w.length
  rw [hscanned] at hstop
  refine execute_iff.mpr ⟨u, ?_, ?_, ?_, ?_, hlen, ⟨hstop, hbody, ?_⟩, ?_⟩
  · simp only [if_true, hscanned]
    exact hacts
  · simp only [if_true, hscanned]
  · simp only [if_true, hscanned]
  · rw [List.getElem?_append_right le_rfl, Nat.sub_self]
    rfl
  · rw [hmark, hfield.1, hfield.2]
    exact ⟨hpos, Nat.zero_le _, hpos⟩
  · rw [List.take_left]

/-- A part of a line, without its line feed. -/
theorem execute_digits (hne : h ≠ []) (hh : ∀ b ∈ h, isHexDigit b = true)
    (hlen : h.length < 2 ^ 31) :
    ∃ t, s.execute (h ++ 0 :: g) h.length true = .ok (t, h ++ 0 :: g, h.length) ∧
      t.cs = 2 ∧ t.error = s.error ∧ t.data = s.data := by
  have hscan := scan_size hne hh []
  rw [List.append_nil] at hscan
  have hexec := execute_anew (s := s) (g := g) hne hlen hscan rfl (Nat.zero_le _) rfl ⟨rfl, rfl⟩
  have hstop : (httpclientParserScanner.scan 2 h.length []).stop = h.length := rfl
  rw [hstop, List.drop_length, Nat.sub_self, List.drop_zero, List.nil_append] at hexec
  exact ⟨_, hexec, rfl, rfl, rfl⟩

theorem execute_return (hne : h ≠ []) (hh : ∀ b ∈ h, isHexDigit b = true)
    (hlen : h.length + 1 < 2 ^ 31) :
    ∃ t, s.execute (h ++ [13] ++ 0 :: g) (h ++ [13]).length true =
        .ok (t, h ++ [13] ++ 0 :: g, (h ++ [13]).length) ∧
      t.cs = 3 ∧ t.error = s.error ∧ t.data = s.data := by
  have hscan := scan_size hne hh [13]
  rw [scan_return] at hscan
  have hlength : (h ++ [13]).length = h.length + 1 := List.length_append
  have hexec := execute_anew (s := s) (g := g) (by simp) (by omega) hscan rfl (Nat.zero_le _) rfl
    ⟨rfl, rfl⟩
  rw [← hlength, List.drop_length, Nat.sub_self, List.drop_zero, List.nil_append] at hexec
  exact ⟨_, hexec, rfl, rfl, rfl⟩

/-- A whole line, and `y` behind it. -/
theorem execute_line (hne : h ≠ []) (hh : ∀ b ∈ h, isHexDigit b = true)
    (hlen : (h ++ 13 :: 10 :: y).length < 2 ^ 31) :
    ∃ (t : ResponseParser) (g' : Bytes),
      s.execute (h ++ 13 :: 10 :: y ++ 0 :: g) (h ++ 13 :: 10 :: y).length true =
        .ok (t, y ++ g', h.length + 2) ∧
      (y ++ g').length = (h ++ 13 :: 10 :: y ++ 0 :: g).length ∧
      t.cs = 120 ∧ t.error = s.error ∧ t.data = s.data ∧
      t.contentLen = HTTP.contentLen h ∧ t.chunksDone = decide (HTTP.contentLen h ≤ 0) := by
  have hscan := scan_size hne hh (13 :: 10 :: y)
  rw [scan_lineEnd] at hscan
  dsimp only at hscan
  have hvalue : strtol ((h ++ 13 :: 10 :: y ++ 0 :: g).drop 0) 16 =
      min (2 ^ 63 - 1) (hexValue h : Int) := by
    rw [List.drop_zero, List.append_assoc]
    exact strtol_hex hne hh _
  have hlength : (h ++ 13 :: 10 :: y).length = h.length + 2 + y.length := by
    rw [List.length_append, List.length_cons, List.length_cons]
    omega
  have hdrop : (h ++ 13 :: 10 :: y).drop (h.length + 2) = y := by
    rw [← List.drop_drop, List.drop_left]
    rfl
  have hexec := execute_anew (s := s) (g := g) (by simp) hlen hscan rfl
    (show h.length + 1 + 1 ≤ _ by omega) rfl ⟨rfl, rfl⟩
  rw [hdrop] at hexec
  refine ⟨_, _, hexec, ?_, rfl, rfl, rfl, congrArg intOfLong hvalue, ?_⟩
  · rw [List.length_append, List.length_drop, List.length_append]
    omega
  · exact congrArg (fun n => decide (intOfLong n ≤ 0)) hvalue

/-- A line that cannot begin like this. -/
theorem execute_refused {b : UInt8} (hb : refused b) (hlen : (b :: w).length < 2 ^ 31) :
    ∃ (t : ResponseParser) (data : Bytes) (n : Nat),
      s.execute (b :: w ++ 0 :: g) (b :: w).length true = .ok (t, data, n) ∧
        t.hasError = true := by
  have hexec := execute_anew (s := s) (g := g) (List.cons_ne_nil b w) hlen (scan_refused hb w) rfl
    (Nat.zero_le _) rfl ⟨rfl, rfl⟩
  refine ⟨_, _, _, hexec, ?_⟩
  simp [hasError]

end ResponseParser

end CppServerFramework.HTTP

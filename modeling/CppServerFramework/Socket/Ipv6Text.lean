import Mathlib.Data.Nat.Digits.Lemmas
import CppServerFramework.HTTP.Dump
import CppServerFramework.Socket.IpAddress

/-!
# The text of an IPv6 address

`IPv6Address::insert` (`socket/ipaddress.cpp:426-448`) writes the eight groups of an address and
leaves out the first run of zeros.  What it writes in the brackets stands, by the rule of RFC 4291,
for the groups that the address has.
-/

namespace CppServerFramework.Socket

open HTTP (Bytes ascii decimal)

/-- `byteswapOnLittleEndian` (`endians.h:60-78`) on a `uint16_t`. -/
def byteswapOnLittleEndian16 (host : Endian) (v : BitVec 16) : BitVec 16 :=
  if host = .little then bswap16 v else v

def hexDigit (d : Nat) : UInt8 := UInt8.ofNat (if d < 10 then 48 + d else 87 + d)

/-- A number as a stream writes it after `std::hex`. -/
def hexText (n : Nat) : Bytes :=
  if n = 0 then [48] else (Nat.digits 16 n).reverse.map hexDigit

namespace IPv6Address

/-- The loop over the groups (`ipaddress.cpp:430-442`), with the group before, and `used_zeros`. -/
def insertGroups (host : Endian) : Option (BitVec 16) → Bool → List (BitVec 16) → Bytes × Bool
  | _, usedZeros, [] => ([], usedZeros)
  | before, usedZeros, g :: addr =>
    if g = 0#16 ∧ usedZeros = false then insertGroups host (some g) usedZeros addr
    else
      let elides := before = some 0#16 ∧ usedZeros = false
      let (text, used) := insertGroups host (some g) (usedZeros || elides) addr
      ((if elides then ascii ":" else []) ++ (if before.isSome then ascii ":" else []) ++
        hexText (byteswapOnLittleEndian16 host g).toNat ++ text, used)

variable (host : Endian) (a : IPv6Address)

/-- `((uint16_t*)s6_addr)[i]` -/
def loadGroup (i : Nat) : BitVec 16 :=
  let low := (a.s6_addr[2 * i]?.getD 0).setWidth 16
  let high := (a.s6_addr[2 * i + 1]?.getD 0).setWidth 16
  match host with
  | .little => high <<< 8 ||| low
  | .big => low <<< 8 ||| high

def loadGroups : List (BitVec 16) := (List.range 8).map (a.loadGroup host)

/-- What is written in the brackets. -/
def bracketText : Bytes :=
  let (text, usedZeros) := insertGroups host none false (a.loadGroups host)
  text ++ if !usedZeros && a.loadGroup host 7 = 0#16 then ascii "::" else []

/-- `IPv6Address::insert` (`ipaddress.cpp:426-448`). -/
def insert : Bytes :=
  ascii "[" ++ a.bracketText host ++ ascii "]:" ++
    decimal (byteswapOnLittleEndian16 host a.sin6_port).toNat

/-- The eight groups of an address, the first byte of each in front. -/
def groups : List Nat :=
  (List.range 8).map fun i =>
    256 * (a.s6_addr[2 * i]?.getD 0).toNat + (a.s6_addr[2 * i + 1]?.getD 0).toNat

end IPv6Address

/-! ## The rule for texts -/

/-- The places of `::`. -/
def gaps : Bytes → Nat
  | b :: c :: text => (if b = 58 ∧ c = 58 then 1 else 0) + gaps (c :: text)
  | _ => 0

/-- The text in front of the first `::`, and the text behind it. -/
def splitGap : Bytes → Option (Bytes × Bytes)
  | [] => none
  | b :: text =>
    if b = 58 ∧ text.head? = some 58 then some ([], text.tail)
    else (splitGap text).map fun p => (b :: p.1, p.2)

def hexValue (b : UInt8) : Option Nat :=
  if 48 ≤ b ∧ b ≤ 57 then some (b.toNat - 48)
  else if 97 ≤ b ∧ b ≤ 102 then some (b.toNat - 87)
  else if 65 ≤ b ∧ b ≤ 70 then some (b.toNat - 55)
  else none

/-- One to four digits. -/
def readGroup (text : Bytes) : Option Nat :=
  if text.length ∈ [1, 2, 3, 4] then
    text.foldlM (fun n b => (hexValue b).map (16 * n + ·)) 0
  else none

/-- Groups with colons between them. -/
def readGroups (text : Bytes) : Option (List Nat) :=
  if text = [] then some [] else (text.splitOn 58).mapM readGroup

/-- The groups of a text: `::` stands for those that are missing, one at least. -/
def expandGroups (text : Bytes) : Option (List Nat) :=
  match splitGap text with
  | none => (readGroups text).filter fun gs => gs.length = 8
  | some (left, right) => do
    let ls ← readGroups left
    let rs ← readGroups right
    if ls.length + rs.length < 8 then
      return ls ++ List.replicate (8 - ls.length - rs.length) 0 ++ rs
    else none

/-! ## Digits -/

variable {n : Nat} {w text : Bytes} {b : UInt8} {gs : List Nat}

theorem hexValue_hexDigit {d : Nat} (h : d < 16) : hexValue (hexDigit d) = some d := by
  interval_cases d <;> decide

theorem hexDigit_ne_colon {d : Nat} (h : d < 16) : hexDigit d ≠ 58 := by
  interval_cases d <;> decide

theorem foldlM_hexDigit (ds : List Nat) (h : ∀ d ∈ ds, d < 16) (n : Nat) :
    (ds.map hexDigit).foldlM (fun n b => (hexValue b).map (16 * n + ·)) n =
      some (ds.foldl (fun n d => 16 * n + d) n) := by
  induction ds generalizing n with
  | nil => rfl
  | cons d ds ih =>
    rw [List.forall_mem_cons] at h
    rw [List.map_cons, List.foldlM_cons, hexValue_hexDigit h.1, List.foldl_cons, ← ih h.2]
    rfl

theorem hexText_digits (h : n ≠ 0) : hexText n = (Nat.digits 16 n).reverse.map hexDigit := if_neg h

theorem digit_lt : ∀ d ∈ (Nat.digits 16 n).reverse, d < 16 := fun _ hd =>
  Nat.digits_lt_base (by decide) (List.mem_reverse.mp hd)

/-- A group is read as it was written. -/
theorem readGroup_hexText (h : n < 65536) : readGroup (hexText n) = some n := by
  by_cases hzero : n = 0
  · subst hzero
    decide
  · have hlength : (hexText n).length ∈ [1, 2, 3, 4] := by
      have hpos : 0 < (Nat.digits 16 n).length :=
        List.length_pos_of_ne_nil (Nat.digits_ne_nil_iff_ne_zero.mpr hzero)
      have hle : (Nat.digits 16 n).length ≤ 4 := by
        rw [Nat.digits_length_le_iff (by decide)]
        exact h
      rw [hexText_digits hzero, List.length_map, List.length_reverse]
      simp only [List.mem_cons, List.not_mem_nil, or_false]
      omega
    rw [readGroup, if_pos hlength, hexText_digits hzero, foldlM_hexDigit _ digit_lt,
      List.foldl_reverse]
    have hfold : ∀ ds : List Nat, ds.foldr (fun d n => 16 * n + d) 0 = Nat.ofDigits 16 ds := by
      intro ds
      induction ds with
      | nil => rfl
      | cons d ds ih =>
        rw [List.foldr_cons, ih, Nat.ofDigits_cons]
        exact Nat.add_comm _ _
    rw [hfold, Nat.ofDigits_digits]

theorem colon_not_mem_hexText (n : Nat) : 58 ∉ hexText n := by
  by_cases hzero : n = 0
  · subst hzero
    decide
  · rw [hexText_digits hzero, List.mem_map]
    rintro ⟨d, hd, heq⟩
    exact hexDigit_ne_colon (digit_lt d hd) heq

theorem hexText_ne_nil (n : Nat) : hexText n ≠ [] := by
  by_cases hzero : n = 0
  · subst hzero
    decide
  · rw [hexText_digits hzero]
    simp [Nat.digits_ne_nil_iff_ne_zero.mpr hzero]

/-! ## Groups with colons between them -/

/-- Groups as they are written. -/
def joinGroups (gs : List Nat) : Bytes := [58].intercalate (gs.map hexText)

theorem joinGroups_cons (g : Nat) (gs : List Nat) : joinGroups (g :: gs) =
    hexText g ++ gs.flatMap fun n => 58 :: hexText n := by
  induction gs generalizing g with
  | nil => simp [joinGroups]
  | cons g' gs ih =>
    rw [joinGroups, List.map_cons, List.map_cons, List.intercalate_cons_cons, ← List.map_cons,
      ← joinGroups, ih]
    simp

theorem readGroups_joinGroups (h : ∀ g ∈ gs, g < 65536) : readGroups (joinGroups gs) = some gs := by
  cases gs with
  | nil => rfl
  | cons g gs =>
    have hne : joinGroups (g :: gs) ≠ [] := by
      rw [joinGroups_cons]
      simp [hexText_ne_nil]
    rw [readGroups, if_neg hne, joinGroups, List.splitOn_intercalate _ _ (by simp)]
    · rw [List.mapM_map]
      have : ∀ l : List Nat, (∀ g ∈ l, g < 65536) →
          l.mapM (fun g => readGroup (hexText g)) = some l := by
        intro l hl
        induction l with
        | nil => rfl
        | cons g l ih =>
          rw [List.forall_mem_cons] at hl
          simp [List.mapM_cons, readGroup_hexText hl.1, ih hl.2]
      exact this _ h
    · intro l hl
      obtain ⟨n, -, rfl⟩ := List.mem_map.mp hl
      exact colon_not_mem_hexText n

theorem joinGroups_cons_cons (g g' : Nat) (gs : List Nat) :
    joinGroups (g :: g' :: gs) = hexText g ++ 58 :: joinGroups (g' :: gs) := by
  rw [joinGroups_cons, joinGroups_cons, List.flatMap_cons, List.cons_append]

theorem head?_joinGroups (gs : List Nat) : (joinGroups gs).head? ≠ some 58 := by
  cases gs with
  | nil => exact nofun
  | cons g gs =>
    intro h
    rw [joinGroups_cons, List.head?_append_of_ne_nil _ (hexText_ne_nil g)] at h
    exact colon_not_mem_hexText g (List.mem_of_head? h)

theorem getLast?_joinGroups (gs : List Nat) : (joinGroups gs).getLast? ≠ some 58 := by
  induction gs with
  | nil => exact nofun
  | cons g gs ih =>
    cases gs with
    | nil =>
      intro h
      rw [joinGroups_cons, List.flatMap_nil, List.append_nil] at h
      exact colon_not_mem_hexText g (List.mem_of_getLast? h)
    | cons g' gs =>
      have hne : joinGroups (g' :: gs) ≠ [] := by
        rw [joinGroups_cons]
        simp [hexText_ne_nil]
      rw [joinGroups_cons_cons, List.getLast?_append, List.getLast?_cons,
        List.getLast?_eq_some_getLast hne] at *
      simpa using ih

/-! ## The gap -/

theorem gaps_cons_colon (v : Bytes) :
    gaps (58 :: v) = (if v.head? = some 58 then 1 else 0) + gaps v := by
  cases v with
  | nil => rfl
  | cons b v => simp [gaps]

theorem gaps_append_colon (w v : Bytes) (hw : w.getLast? ≠ some 58) :
    gaps (w ++ 58 :: v) = gaps w + gaps (58 :: v) := by
  induction w with
  | nil => simp [gaps]
  | cons b w ih =>
    cases w with
    | nil =>
      have hb : b ≠ 58 := by simpa using hw
      simp [gaps, hb]
    | cons c w =>
      rw [List.getLast?_cons_cons] at hw
      rw [List.cons_append, List.cons_append, gaps, ← List.cons_append, ih hw, gaps, Nat.add_assoc]

theorem gaps_eq_zero (hw : 58 ∉ w) : gaps w = 0 := by
  induction w with
  | nil => rfl
  | cons b w ih =>
    rw [List.mem_cons, not_or] at hw
    cases w with
    | nil => rfl
    | cons c w =>
      rw [gaps, ih hw.2, if_neg fun h => hw.1 h.1.symm]

theorem gaps_joinGroups (gs : List Nat) : gaps (joinGroups gs) = 0 := by
  induction gs with
  | nil => rfl
  | cons g gs ih =>
    have hg : gaps (hexText g) = 0 := gaps_eq_zero (colon_not_mem_hexText g)
    cases gs with
    | nil => rwa [joinGroups_cons, List.flatMap_nil, List.append_nil]
    | cons g' gs =>
      have hlast : (hexText g).getLast? ≠ some 58 := fun h =>
        colon_not_mem_hexText g (List.mem_of_getLast? h)
      rw [joinGroups_cons_cons, gaps_append_colon _ _ hlast, gaps_cons_colon, hg, ih,
        if_neg (head?_joinGroups _)]

theorem splitGap_none (hw : gaps w = 0) : splitGap w = none := by
  induction w with
  | nil => rfl
  | cons b w ih =>
    cases w with
    | nil => simp [splitGap]
    | cons c w =>
      rw [gaps, Nat.add_eq_zero_iff] at hw
      have hbc : ¬(b = 58 ∧ (c :: w).head? = some 58) := by
        intro h
        simp [h.1, Option.some.inj h.2] at hw
      rw [splitGap, if_neg hbc, ih hw.2]
      rfl

theorem splitGap_append (v : Bytes) (hw : gaps w = 0) (hlast : w.getLast? ≠ some 58) :
    splitGap (w ++ 58 :: 58 :: v) = some (w, v) := by
  induction w with
  | nil => simp [splitGap]
  | cons b w ih =>
    have hrest : splitGap (w ++ 58 :: 58 :: v) = some (w, v) ∧
        ¬(b = 58 ∧ (w ++ 58 :: 58 :: v).head? = some 58) := by
      cases w with
      | nil =>
        have hb : b ≠ 58 := by simpa using hlast
        exact ⟨ih rfl nofun, fun h => hb h.1⟩
      | cons c w =>
        rw [gaps, Nat.add_eq_zero_iff] at hw
        rw [List.getLast?_cons_cons] at hlast
        refine ⟨ih hw.2 hlast, fun h => ?_⟩
        simp [h.1, Option.some.inj h.2] at hw
    rw [List.cons_append, splitGap, if_neg hrest.2, hrest.1]
    rfl

/-- Eight groups without a gap. -/
theorem expandGroups_joinGroups (h : ∀ g ∈ gs, g < 65536) (hlen : gs.length = 8) :
    expandGroups (joinGroups gs) = some gs := by
  rw [expandGroups, splitGap_none (gaps_joinGroups gs)]
  simp [readGroups_joinGroups h, hlen]

/-- The gap stands for the groups that are missing. -/
theorem expandGroups_gap {ls rs : List Nat} (hls : ∀ g ∈ ls, g < 65536)
    (hrs : ∀ g ∈ rs, g < 65536) (hlen : ls.length + rs.length < 8) :
    expandGroups (joinGroups ls ++ 58 :: 58 :: joinGroups rs) =
      some (ls ++ List.replicate (8 - ls.length - rs.length) 0 ++ rs) := by
  rw [expandGroups, splitGap_append _ (gaps_joinGroups ls) (getLast?_joinGroups ls)]
  simp [readGroups_joinGroups hls, readGroups_joinGroups hrs, hlen]

/-! ## The loop -/

variable {host : Endian} {g : BitVec 16}

/-- A group as it is written. -/
def groupValue (host : Endian) (g : BitVec 16) : Nat := (byteswapOnLittleEndian16 host g).toNat

/-- Groups with a colon in front of each. -/
def tailText (host : Endian) (gs : List (BitVec 16)) : Bytes :=
  gs.flatMap fun g => 58 :: hexText (groupValue host g)

theorem joinGroups_map_cons (gs : List (BitVec 16)) :
    joinGroups ((g :: gs).map (groupValue host)) =
      hexText (groupValue host g) ++ tailText host gs := by
  rw [List.map_cons, joinGroups_cons, List.flatMap_map]
  rfl

namespace IPv6Address

theorem insertGroups_cons {before : Option (BitVec 16)} {usedZeros : Bool}
    (gs : List (BitVec 16)) (h : ¬(g = 0#16 ∧ usedZeros = false)) :
    insertGroups host before usedZeros (g :: gs) =
      ((if before = some 0#16 ∧ usedZeros = false then [58] else []) ++
          (if before.isSome then [58] else []) ++ hexText (groupValue host g) ++
          (insertGroups host (some g)
            (usedZeros || decide (before = some 0#16 ∧ usedZeros = false)) gs).1,
        (insertGroups host (some g)
          (usedZeros || decide (before = some 0#16 ∧ usedZeros = false)) gs).2) := by
  rw [insertGroups, if_neg h]
  rfl

/-- Behind the gap every group is written. -/
theorem insertGroups_used (before : BitVec 16) (gs : List (BitVec 16)) :
    insertGroups host (some before) true gs = (tailText host gs, true) := by
  induction gs generalizing before with
  | nil => rfl
  | cons g gs ih =>
    rw [insertGroups_cons gs (by simp)]
    simp [ih, tailText]

/-- What comes behind a zero, up to the end of the gap and from there. -/
def gapText (host : Endian) (gs : List (BitVec 16)) : Bytes × Bool :=
  match gs.dropWhile (· = 0#16) with
  | [] => ([], false)
  | g :: gs => (58 :: tailText host (g :: gs), true)

theorem gapText_zero (gs : List (BitVec 16)) : gapText host (0#16 :: gs) = gapText host gs := rfl

theorem insertGroups_zero (gs : List (BitVec 16)) :
    insertGroups host (some 0#16) false gs = gapText host gs := by
  induction gs with
  | nil => rfl
  | cons g gs ih =>
    by_cases hg : g = 0#16
    · rw [insertGroups, if_pos ⟨hg, rfl⟩, hg, ih, gapText_zero]
    · rw [insertGroups_cons gs (by simp [hg])]
      simp [insertGroups_used, gapText, hg, tailText]

/-- Where a gap begins, or the groups end. -/
theorem insertGroups_gap {before : Option (BitVec 16)} {right : List (BitVec 16)}
    (hright : right.head? = none ∨ right.head? = some 0#16) :
    insertGroups host before false right = gapText host right := by
  cases right with
  | nil => rfl
  | cons g right =>
    have hg : g = 0#16 := by simpa using hright
    subst hg
    rw [insertGroups, if_pos ⟨rfl, rfl⟩, insertGroups_zero, gapText_zero]

/-- Up to the first zero every group is written. -/
theorem insertGroups_nonzero {before : BitVec 16} (hbefore : before ≠ 0#16)
    {left right : List (BitVec 16)} (hleft : ∀ g ∈ left, g ≠ 0#16)
    (hright : right.head? = none ∨ right.head? = some 0#16) :
    insertGroups host (some before) false (left ++ right) =
      (tailText host left ++ (gapText host right).1, (gapText host right).2) := by
  induction left generalizing before with
  | nil =>
    rw [List.nil_append, insertGroups_gap hright]
    rfl
  | cons g left ih =>
    rw [List.forall_mem_cons] at hleft
    rw [List.cons_append, insertGroups_cons _ (by simp [hleft.1])]
    simp [hbefore, ih hleft.1 hleft.2, tailText]

theorem insertGroups_none {left right : List (BitVec 16)} (hleft : ∀ g ∈ left, g ≠ 0#16)
    (hright : right.head? = none ∨ right.head? = some 0#16) :
    insertGroups host none false (left ++ right) =
      (joinGroups (left.map (groupValue host)) ++ (gapText host right).1,
        (gapText host right).2) := by
  cases left with
  | nil =>
    rw [List.nil_append, insertGroups_gap hright]
    rfl
  | cons g left =>
    rw [List.forall_mem_cons] at hleft
    rw [List.cons_append, insertGroups_cons _ (by simp [hleft.1]), joinGroups_map_cons]
    simp [insertGroups_nonzero hleft.1 hleft.2 hright]

/-! ## The address -/

variable {a b : IPv6Address}

theorem exists_zeros (gs : List (BitVec 16)) :
    ∃ zeros right, gs = List.replicate zeros 0#16 ++ right ∧ right.head? ≠ some 0#16 := by
  induction gs with
  | nil => exact ⟨0, [], rfl, nofun⟩
  | cons g gs ih =>
    by_cases hg : g = 0#16
    · obtain ⟨zeros, right, heq, hright⟩ := ih
      exact ⟨zeros + 1, right, by rw [hg, heq, List.replicate_succ, List.cons_append], hright⟩
    · exact ⟨0, g :: gs, rfl, by simpa using hg⟩

/-- The first run of zeros. -/
theorem exists_run (gs : List (BitVec 16)) :
    (∀ g ∈ gs, g ≠ 0#16) ∨
      ∃ left zeros right, gs = left ++ List.replicate (zeros + 1) 0#16 ++ right ∧
        (∀ g ∈ left, g ≠ 0#16) ∧ right.head? ≠ some 0#16 := by
  induction gs with
  | nil => exact .inl nofun
  | cons g gs ih =>
    by_cases hg : g = 0#16
    · obtain ⟨zeros, right, heq, hright⟩ := exists_zeros gs
      exact .inr ⟨[], zeros, right, by simp [hg, heq, List.replicate_succ], nofun, hright⟩
    · rcases ih with hall | ⟨left, zeros, right, heq, hleft, hright⟩
      · exact .inl (List.forall_mem_cons.mpr ⟨hg, hall⟩)
      · exact .inr ⟨g :: left, zeros, right, by rw [heq]; rfl,
          List.forall_mem_cons.mpr ⟨hg, hleft⟩, hright⟩

theorem gapText_replicate (n : Nat) (gs : List (BitVec 16)) :
    gapText host (List.replicate n 0#16 ++ gs) = gapText host gs := by
  induction n with
  | zero => rfl
  | succ n ih => rwa [List.replicate_succ, List.cons_append, gapText_zero]

/-- What is written is the groups, or those in front of a run of zeros and those behind it. -/
theorem bracketText_cases (host : Endian) (a : IPv6Address) :
    a.bracketText host = joinGroups ((a.loadGroups host).map (groupValue host)) ∨
      ∃ left zeros right, a.loadGroups host = left ++ List.replicate (zeros + 1) 0#16 ++ right ∧
        a.bracketText host = joinGroups (left.map (groupValue host)) ++
          58 :: 58 :: joinGroups (right.map (groupValue host)) := by
  have hlast : (a.loadGroups host).getLast? = some (a.loadGroup host 7) := rfl
  rcases exists_run (a.loadGroups host) with hall | ⟨left, zeros, right, heq, hleft, hright⟩
  · have hseven : a.loadGroup host 7 ≠ 0#16 := hall _ (List.mem_of_getLast? hlast)
    refine .inl ?_
    rw [bracketText, ← List.append_nil (a.loadGroups host),
      insertGroups_none hall (.inl List.head?_nil)]
    simp [gapText, hseven]
  · refine .inr ⟨left, zeros, right, heq, ?_⟩
    rw [bracketText, heq, List.append_assoc, insertGroups_none hleft (.inr rfl),
      gapText_replicate]
    cases right with
    | nil =>
      have hseven : a.loadGroup host 7 = 0#16 := by
        rw [heq, List.append_nil, List.replicate_succ', ← List.append_assoc,
          List.getLast?_concat] at hlast
        exact (Option.some.inj hlast).symm
      simp [gapText, hseven, joinGroups]
      decide
    | cons g right =>
      have hg : g ≠ 0#16 := by simpa using hright
      rw [joinGroups_map_cons]
      simp [gapText, hg, tailText]

/-! ## The groups -/

theorem bswap16_bytes (b c : BitVec 8) :
    bswap16 (c.setWidth 16 <<< 8 ||| b.setWidth 16) = b.setWidth 16 <<< 8 ||| c.setWidth 16 := by
  apply BitVec.eq_of_getElem_eq
  intro i hi
  simp only [bswap16]
  interval_cases i <;> simp

theorem toNat_bytes (b c : BitVec 8) :
    (b.setWidth 16 <<< 8 ||| c.setWidth 16).toNat = 256 * b.toNat + c.toNat := by
  have hb := b.isLt
  have hc := c.isLt
  have hshift : b.toNat <<< 8 % 2 ^ 16 = b.toNat <<< 8 :=
    Nat.mod_eq_of_lt (by rw [Nat.shiftLeft_eq]; omega)
  have hb16 : b.toNat % 2 ^ 16 = b.toNat := Nat.mod_eq_of_lt (by omega)
  have hc16 : c.toNat % 2 ^ 16 = c.toNat := Nat.mod_eq_of_lt (by omega)
  rw [BitVec.toNat_or, BitVec.toNat_shiftLeft, BitVec.toNat_setWidth, BitVec.toNat_setWidth,
    hb16, hc16, hshift, ← Nat.shiftLeft_add_eq_or_of_lt hc, Nat.shiftLeft_eq]
  omega

/-- What is written for a group has its first byte in front, on every host. -/
theorem groupValue_loadGroup (host : Endian) (a : IPv6Address) (i : Nat) :
    groupValue host (a.loadGroup host i) =
      256 * (a.s6_addr[2 * i]?.getD 0).toNat + (a.s6_addr[2 * i + 1]?.getD 0).toNat := by
  rw [← toNat_bytes]
  cases host with
  | little => exact congrArg BitVec.toNat (bswap16_bytes _ _)
  | big => rfl

theorem groups_eq (host : Endian) (a : IPv6Address) :
    (a.loadGroups host).map (groupValue host) = a.groups := by
  rw [loadGroups, List.map_map, groups]
  exact List.map_congr_left fun i _ => groupValue_loadGroup host a i

theorem groupValue_zero (host : Endian) : groupValue host 0#16 = 0 := by
  cases host <;> rfl

theorem groupValue_lt (host : Endian) (gs : List (BitVec 16)) :
    ∀ n ∈ gs.map (groupValue host), n < 65536 := by
  intro n hn
  obtain ⟨g, -, rfl⟩ := List.mem_map.mp hn
  exact (byteswapOnLittleEndian16 host g).isLt

theorem bracketText_expands (host : Endian) (a : IPv6Address) :
    gaps (a.bracketText host) ≤ 1 ∧ expandGroups (a.bracketText host) = some a.groups := by
  rcases bracketText_cases host a with htext | ⟨left, zeros, right, heq, htext⟩
  · rw [htext]
    refine ⟨by rw [gaps_joinGroups]; omega, ?_⟩
    rw [← groups_eq host a]
    exact expandGroups_joinGroups (groupValue_lt host _) (List.length_map _)
  · have hlen : left.length + (zeros + 1) + right.length = 8 := by
      have := congrArg List.length heq
      simpa [loadGroups, Nat.add_assoc] using this.symm
    rw [htext]
    constructor
    · rw [gaps_append_colon _ _ (getLast?_joinGroups _), gaps_cons_colon, gaps_cons_colon,
        gaps_joinGroups, gaps_joinGroups, if_neg (head?_joinGroups _)]
      simp
    · rw [expandGroups_gap (groupValue_lt host _) (groupValue_lt host _)
        (by simp only [List.length_map]; omega), ← groups_eq host a, heq]
      have hzeros : 8 - left.length - right.length = zeros + 1 := by omega
      simp only [List.length_map, hzeros, List.map_append, List.map_replicate, groupValue_zero]

/-- The groups of an address have its bytes. -/
theorem s6_addr_eq_of_groups (h : a.groups = b.groups) : a.s6_addr = b.s6_addr := by
  have hgroup : ∀ i < 8, a.s6_addr[2 * i]?.getD 0 = b.s6_addr[2 * i]?.getD 0 ∧
      a.s6_addr[2 * i + 1]?.getD 0 = b.s6_addr[2 * i + 1]?.getD 0 := by
    intro i hi
    have heq := List.map_inj_left.mp h i (List.mem_range.mpr hi)
    have hlow := (a.s6_addr[2 * i + 1]?.getD 0).isLt
    have hlow' := (b.s6_addr[2 * i + 1]?.getD 0).isLt
    constructor <;> apply BitVec.eq_of_toNat_eq <;> omega
  apply Vector.ext
  intro i hi
  obtain ⟨heven, hodd⟩ := hgroup (i / 2) (by omega)
  rcases Nat.mod_two_eq_zero_or_one i with hmod | hmod
  · have hindex : 2 * (i / 2) = i := by omega
    rw [hindex] at heven
    simpa [hi] using heven
  · have hindex : 2 * (i / 2) + 1 = i := by omega
    rw [hindex] at hodd
    simpa [hi] using hodd

/-- What is written in the brackets has one `::` at most and stands for the groups of the address,
    so that addresses with the same text are the same. -/
theorem bracketText_lossless (host : Endian) (a b : IPv6Address) :
    (gaps (a.bracketText host) ≤ 1 ∧ expandGroups (a.bracketText host) = some a.groups) ∧
      (a.bracketText host = b.bracketText host → a.s6_addr = b.s6_addr) := by
  refine ⟨bracketText_expands host a, fun h => s6_addr_eq_of_groups ?_⟩
  have hexpand := (bracketText_expands host a).2
  rw [h, (bracketText_expands host b).2] at hexpand
  exact (Option.some.inj hexpand).symm

end IPv6Address

end CppServerFramework.Socket

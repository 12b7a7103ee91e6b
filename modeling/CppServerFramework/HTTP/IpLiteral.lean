import CppServerFramework.HTTP.UriProps

/-!
# Addresses in hosts

The rules of RFC 3986 for an address in brackets, and where those of `uri.rl` differ: the counts in
front of `::` are exact there, an octet from 200 to 249 begins with the byte 2 and not with the
digit, and a future version begins with a small letter only.
-/

namespace CppServerFramework.HTTP

namespace Rfc3986
open Regex UriGrammar

def decOctet : Regex :=
  alts [set UriGrammar.digit, seq (set [(49, 57)]) (set UriGrammar.digit),
    seqs [chr 49, set UriGrammar.digit, set UriGrammar.digit],
    seqs [chr 50, set [(48, 52)], set UriGrammar.digit], seqs [chr 50, chr 53, set [(48, 53)]]]

def ipv4Address : Regex := seqs [decOctet, chr 46, decOctet, chr 46, decOctet, chr 46, decOctet]

def ls32 : Regex := alt (seqs [h16, chr 58, h16]) ipv4Address

/-- The counts in front of `::` are upper bounds. -/
def ipv6Address : Regex :=
  alts [seq (times 6 h16Colon) ls32,
    seqs [colons, times 5 h16Colon, ls32],
    seqs [opt h16, colons, times 4 h16Colon, ls32],
    seqs [opt (seq (atMost 1 h16Colon) h16), colons, times 3 h16Colon, ls32],
    seqs [opt (seq (atMost 2 h16Colon) h16), colons, times 2 h16Colon, ls32],
    seqs [opt (seq (atMost 3 h16Colon) h16), colons, times 1 h16Colon, ls32],
    seqs [opt (seq (atMost 4 h16Colon) h16), colons, ls32],
    seqs [opt (seq (atMost 5 h16Colon) h16), colons, h16],
    seqs [opt (seq (atMost 6 h16Colon) h16), colons]]

/-- A letter between quotes stands for the capital one as well. -/
def ipvFuture : Regex :=
  seqs [set [(86, 86), (118, 118)], plus (set xdigit), chr 46,
    plus (set (unreserved ++ subDelims ++ [(58, 58)]))]

def ipLiteral : Regex := alt ipv6Address ipvFuture

def host : Regex := alt (seqs [chr 91, ipLiteral, chr 93]) (alt ipv4Address regName)

end Rfc3986

open UriGrammar

variable {w rest f t : Bytes} {b : UInt8} {m n k : Nat} {ls : Regex} {front : Nat → Regex}

/-! ## The shape of an address -/

/-- The alternative of the rule for addresses with `m` groups behind `::`, in terms of what may
    stand in front of it and at the end. -/
def alternative (front : Nat → Regex) (ls : Regex) : Nat → Regex
  | 0 => Regex.seqs [Regex.opt (.seq (front 6) h16), colons]
  | 1 => Regex.seqs [Regex.opt (.seq (front 5) h16), colons, h16]
  | 2 => Regex.seqs [Regex.opt (.seq (front 4) h16), colons, ls]
  | 3 => Regex.seqs [Regex.opt (.seq (front 3) h16), colons, times 1 h16Colon, ls]
  | 4 => Regex.seqs [Regex.opt (.seq (front 2) h16), colons, times 2 h16Colon, ls]
  | 5 => Regex.seqs [Regex.opt (.seq (front 1) h16), colons, times 3 h16Colon, ls]
  | 6 => Regex.seqs [Regex.opt h16, colons, times 4 h16Colon, ls]
  | _ => Regex.seqs [colons, times 5 h16Colon, ls]

def address (front : Nat → Regex) (ls : Regex) : Regex :=
  Regex.alts (.seq (times 6 h16Colon) ls :: (List.range 8).reverse.map (alternative front ls))

theorem ipv6Address_eq : UriGrammar.ipv6Address =
    address (fun n => times n h16Colon) UriGrammar.ls32 := rfl

theorem rfcIpv6Address_eq : Rfc3986.ipv6Address =
    address (fun n => Regex.atMost n h16Colon) Rfc3986.ls32 := rfl

/-- What stands behind `::` with `m` groups. -/
def groupsBehind (ls : Regex) : Nat → Regex
  | 0 => .eps
  | 1 => h16
  | m + 2 => .seq (times m h16Colon) ls

theorem mem_colons : w ∈ colons.language ↔ w = [58, 58] := by
  have h58 : ∀ x : Bytes, x ∈ (Regex.chr 58).language ↔ x = [58] := fun x => mem_chr rfl
  rw [colons, Regex.language, Language.mem_mul]
  simp only [h58, exists_eq_left, List.singleton_append, eq_comm (b := w)]

theorem mem_elided {g r : Regex} : w ∈ g.language * (colons.language * r.language) ↔
    ∃ f t, w = f ++ 58 :: 58 :: t ∧ t ∈ r.language ∧ f ∈ g.language := by
  simp only [Language.mem_mul, mem_colons, exists_eq_left]
  constructor
  · rintro ⟨f, hf, _, ⟨t, ht, rfl⟩, rfl⟩
    exact ⟨f, t, rfl, ht, hf⟩
  · rintro ⟨f, t, rfl, ht, hf⟩
    exact ⟨f, hf, _, ⟨t, ht, rfl⟩, rfl⟩

theorem language_alternative (hfront : (front 0).language = 1) (hm : m ≤ 6) :
    (alternative front ls m).language = (Regex.opt (.seq (front (6 - m)) h16)).language *
      (colons.language * (groupsBehind ls m).language) := by
  match m, hm with
  | 0, _ =>
    rw [groupsBehind, Regex.language, mul_one]
    rfl
  | 1, _ => rfl
  | 2, _ =>
    rw [groupsBehind, Regex.language, show (times 0 h16Colon).language = 1 from rfl, one_mul]
    rfl
  | 3, _ => rfl
  | 4, _ => rfl
  | 5, _ => rfl
  | 6, _ =>
    have hopt : (Regex.opt (.seq (front 0) h16)).language = (Regex.opt h16).language := by
      rw [Regex.opt, Regex.language, Regex.language.eq_4, hfront, one_mul]
      rfl
    rw [hopt]
    rfl

theorem mem_address (hfront : (front 0).language = 1) : w ∈ (address front ls).language ↔
    w ∈ (Regex.seq (times 6 h16Colon) ls).language ∨
      ∃ m ≤ 7, ∃ f t, w = f ++ 58 :: 58 :: t ∧ t ∈ (groupsBehind ls m).language ∧
        (f = [] ∨ m ≤ 6 ∧ f ∈ (Regex.seq (front (6 - m)) h16).language) := by
  have halternative : ∀ m ≤ 7, w ∈ (alternative front ls m).language ↔
      ∃ f t, w = f ++ 58 :: 58 :: t ∧ t ∈ (groupsBehind ls m).language ∧
        (f = [] ∨ m ≤ 6 ∧ f ∈ (Regex.seq (front (6 - m)) h16).language) := by
    intro m hm
    rcases Nat.lt_or_ge m 7 with hlt | hge
    · rw [language_alternative hfront (by omega), mem_elided]
      simp only [show m ≤ 6 by omega, true_and]
      rfl
    · obtain rfl : m = 7 := by omega
      have heps : (alternative front ls 7).language =
          Regex.eps.language * (colons.language * (groupsBehind ls 7).language) :=
        (one_mul _).symm
      rw [heps, mem_elided]
      simp [Regex.language]
  rw [address, Regex.mem_language_alts]
  simp only [List.exists_mem_cons_iff, List.mem_map, List.mem_reverse, List.mem_range]
  refine or_congr Iff.rfl ⟨?_, ?_⟩
  · rintro ⟨_, ⟨m, hm, rfl⟩, hw⟩
    exact ⟨m, by omega, (halternative m (by omega)).mp hw⟩
  · rintro ⟨m, hm, hw⟩
    exact ⟨_, ⟨m, by omega, rfl⟩, (halternative m hm).mpr hw⟩

/-! ## Groups -/

theorem h16_ne_nil (h : w ∈ h16.language) : w ≠ [] := by
  rintro rfl
  exact absurd (Regex.nil_mem_language.mp h) (by decide)

theorem free_h16 (h : w ∈ h16.language) : Free [58, 46, 2] w := free_of_letters h (by decide)

theorem mem_h16Colon : w ∈ h16Colon.language ↔ ∃ h ∈ h16.language, w = h ++ [58] := by
  have h58 : ∀ x : Bytes, x ∈ (Regex.chr 58).language ↔ x = [58] := fun x => mem_chr rfl
  rw [h16Colon, Regex.language, Language.mem_mul]
  simp only [h58, exists_eq_left, eq_comm (b := w)]

theorem language_times_succ (n : Nat) (r : Regex) :
    (times (n + 1) r).language = r.language * (times n r).language := by
  cases n with
  | zero => exact (mul_one _).symm
  | succ n => rfl

theorem mem_atMost {r : Regex} :
    w ∈ (Regex.atMost n r).language ↔ ∃ k ≤ n, w ∈ (times k r).language := by
  induction n generalizing w with
  | zero =>
    constructor
    · exact fun h => ⟨0, Nat.le_refl 0, h⟩
    · rintro ⟨k, hk, h⟩
      rwa [Nat.le_zero.mp hk] at h
  | succ n ih =>
    constructor
    · rintro (h | ⟨x, hx, y, hy, rfl⟩)
      · exact ⟨0, Nat.zero_le _, h⟩
      · obtain ⟨k, hk, hy⟩ := ih.mp hy
        refine ⟨k + 1, Nat.succ_le_succ hk, ?_⟩
        rw [language_times_succ]
        exact ⟨x, hx, y, hy, rfl⟩
    · rintro ⟨k, hk, h⟩
      cases k with
      | zero => exact Or.inl h
      | succ k =>
        rw [language_times_succ] at h
        obtain ⟨x, hx, y, hy, rfl⟩ := h
        exact Or.inr ⟨x, hx, y, ih.mpr ⟨k, Nat.le_of_succ_le_succ hk, hy⟩, rfl⟩

/-- Groups, each with its colon. -/
structure Groups (k : Nat) (w : Bytes) : Prop where
  count : w.count 58 = k
  free : Free [46, 2] w
  ends : w = [] ∨ ∃ v, w = v ++ [58]
  head : w.head? ≠ some 58

theorem groups_of_mem (h : w ∈ (times k h16Colon).language) : Groups k w := by
  induction k generalizing w with
  | zero =>
    obtain rfl : w = [] := h
    exact ⟨rfl, free_nil, Or.inl rfl, by simp⟩
  | succ k ih =>
    rw [language_times_succ] at h
    obtain ⟨x, hx, y, hy, rfl⟩ := h
    obtain ⟨g, hg, rfl⟩ := mem_h16Colon.mp hx
    obtain ⟨hcount, hfree, hends, -⟩ := ih hy
    have hfg := free_h16 hg
    have hnot : 58 ∉ g := hfg.not_mem (by decide)
    refine ⟨?_, ?_, Or.inr ?_, ?_⟩
    · rw [List.count_append, List.count_append, List.count_eq_zero.mpr hnot, hcount]
      simp [Nat.add_comm]
    · exact free_append.mpr
        ⟨free_append.mpr ⟨hfg.mono (by decide), free_cons.mpr ⟨by decide, free_nil⟩⟩, hfree⟩
    · rcases hends with rfl | ⟨v, rfl⟩
      · exact ⟨g, by simp⟩
      · exact ⟨g ++ [58] ++ v, by simp⟩
    · cases g with
      | nil => exact absurd rfl (h16_ne_nil hg)
      | cons b g =>
        rintro ⟨⟩
        exact hnot List.mem_cons_self

/-- The colons of a text, and one for an address with dots. -/
def weight (w : Bytes) : Nat := w.count 58 + if 46 ∈ w then 1 else 0

/-- What stands behind the last colon. -/
def lastPiece (w : Bytes) : Bytes := (cutAt [58] w.reverse).1.reverse

/-- The octets from 200 to 249. -/
def largeOctet : Regex := Regex.seqs [Regex.chr 50, .set [(48, 52)], .set UriGrammar.digit]

/-- The address ends in one with dots, of which an octet is between 200 and 249. -/
def LargeOctet (w : Bytes) : Prop :=
  46 ∈ lastPiece w ∧ ∃ o ∈ (lastPiece w).splitOn 46, o ∈ largeOctet.language

theorem lastPiece_append (w t : Bytes) : lastPiece (w ++ 58 :: t) = lastPiece t := by
  obtain ⟨heq, hfree, hstop⟩ := cutAt_spec [58] t.reverse
  have hcut : cutAt [58] (w ++ 58 :: t).reverse =
      ((cutAt [58] t.reverse).1, (cutAt [58] t.reverse).2 ++ 58 :: w.reverse) := by
    refine cutAt_eq.mpr ⟨?_, hfree, ?_⟩
    · rw [← List.append_assoc, ← heq]
      simp
    · cases h : (cutAt [58] t.reverse).2 with
      | nil => exact stops_cons.mpr (by decide)
      | cons c r =>
        rw [h] at hstop
        exact stops_cons.mpr (stops_cons.mp hstop)
  rw [lastPiece, hcut, lastPiece]

theorem lastPiece_of_free (h : Free [58] w) : lastPiece w = w := by
  have hcut : cutAt [58] w.reverse = (w.reverse, []) :=
    cutAt_eq.mpr ⟨by simp, fun b hb => h b (List.mem_reverse.mp hb), stops_nil⟩
  rw [lastPiece, hcut, List.reverse_reverse]

theorem largeOctet_append (w t : Bytes) : LargeOctet (w ++ 58 :: t) ↔ LargeOctet t := by
  rw [LargeOctet, lastPiece_append, LargeOctet]

/-- Groups in front do not matter. -/
theorem Groups.largeOctet_iff (h : Groups k w) (t : Bytes) :
    LargeOctet (w ++ t) ↔ LargeOctet t := by
  rcases h.ends with rfl | ⟨v, rfl⟩
  · rfl
  · rw [List.append_assoc]
    exact largeOctet_append v t

theorem not_largeOctet (h : Free [58, 46] w) : ¬ LargeOctet w := by
  rintro ⟨hdot, -⟩
  rw [lastPiece_of_free (h.mono (by decide))] at hdot
  exact h 46 hdot (by decide)

/-! ## Octets -/

theorem eq_of_mem_largeOctet (h : w ∈ largeOctet.language) :
    ∃ c d, inRanges [(48, 52)] c = true ∧ w = [50, c, d] := by
  obtain ⟨x, hx, y, ⟨_, ⟨c, hc, rfl⟩, _, ⟨d, -, rfl⟩, rfl⟩, rfl⟩ := h
  obtain rfl := (mem_chr (show (50 : UInt8).toNat = 50 from rfl)).mp hx
  exact ⟨c, d, hc, rfl⟩

theorem octet_iff : w ∈ Rfc3986.decOctet.language ∧ w ∉ largeOctet.language ↔
    w ∈ UriGrammar.decOctet.language ∧ 2 ∉ w := by
  constructor
  · rintro ⟨h, hlarge⟩
    have htwo : Free [2] w := free_of_letters h (by decide)
    refine ⟨?_, htwo.not_mem (by decide)⟩
    rcases h with h | h | h | h | h
    · exact Or.inl h
    · exact Or.inr (Or.inl h)
    · exact Or.inr (Or.inr (Or.inl h))
    · exact absurd h hlarge
    · exact Or.inr (Or.inr (Or.inr (Or.inr h)))
  · rintro ⟨h, htwo⟩
    rcases h with h | h | h | h | h
    · refine ⟨Or.inl h, fun hlarge => ?_⟩
      obtain ⟨b, -, rfl⟩ := h
      obtain ⟨c, d, -, heq⟩ := eq_of_mem_largeOctet hlarge
      cases heq
    · refine ⟨Or.inr (Or.inl h), fun hlarge => ?_⟩
      obtain ⟨_, ⟨b, -, rfl⟩, _, ⟨b', -, rfl⟩, rfl⟩ := h
      obtain ⟨c, d, -, heq⟩ := eq_of_mem_largeOctet hlarge
      cases heq
    · refine ⟨Or.inr (Or.inr (Or.inl h)), fun hlarge => ?_⟩
      obtain ⟨x, hx, y, -, rfl⟩ := h
      obtain rfl := (mem_chr (show (49 : UInt8).toNat = 49 from rfl)).mp hx
      obtain ⟨c, d, -, heq⟩ := eq_of_mem_largeOctet hlarge
      cases heq
    · obtain ⟨x, hx, y, -, rfl⟩ := h
      obtain rfl := (mem_chr (show (2 : UInt8).toNat = 2 from rfl)).mp hx
      exact absurd List.mem_cons_self htwo
    · refine ⟨Or.inr (Or.inr (Or.inr (Or.inr h))), fun hlarge => ?_⟩
      obtain ⟨x, hx, _, ⟨y, hy, z, -, rfl⟩, rfl⟩ := h
      obtain rfl := (mem_chr (show (50 : UInt8).toNat = 50 from rfl)).mp hx
      obtain rfl := (mem_chr (show (53 : UInt8).toNat = 53 from rfl)).mp hy
      obtain ⟨c, d, hc, heq⟩ := eq_of_mem_largeOctet hlarge
      cases heq
      exact absurd hc (by decide)

theorem free_octet (h : w ∈ Rfc3986.decOctet.language) : Free [58, 46, 2] w :=
  free_of_letters h (by decide)

theorem mem_dotted {r : Regex} :
    w ∈ (Regex.seqs [r, .chr 46, r, .chr 46, r, .chr 46, r]).language ↔
      ∃ a ∈ r.language, ∃ b ∈ r.language, ∃ c ∈ r.language, ∃ d ∈ r.language,
        w = a ++ 46 :: (b ++ 46 :: (c ++ 46 :: d)) := by
  have h46 : ∀ x : Bytes, x ∈ (Regex.chr 46).language ↔ x = [46] := fun x => mem_chr rfl
  have hstep : ∀ (x : Bytes) (l : Language UInt8),
      x ∈ r.language * ((Regex.chr 46).language * l) ↔
        ∃ a ∈ r.language, ∃ y ∈ l, x = a ++ 46 :: y := by
    intro x l
    simp only [Language.mem_mul, h46, exists_eq_left]
    constructor
    · rintro ⟨a, ha, _, ⟨y, hy, rfl⟩, rfl⟩
      exact ⟨a, ha, y, hy, rfl⟩
    · rintro ⟨a, ha, y, hy, rfl⟩
      exact ⟨a, ha, _, ⟨y, hy, rfl⟩, rfl⟩
  change w ∈ r.language * ((Regex.chr 46).language * (r.language * ((Regex.chr 46).language *
    (r.language * ((Regex.chr 46).language * r.language))))) ↔ _
  simp only [hstep]
  constructor
  · rintro ⟨a, ha, _, ⟨b, hb, _, ⟨c, hc, d, hd, rfl⟩, rfl⟩, rfl⟩
    exact ⟨a, ha, b, hb, c, hc, d, hd, rfl⟩
  · rintro ⟨a, ha, b, hb, c, hc, d, hd, rfl⟩
    exact ⟨a, ha, _, ⟨b, hb, _, ⟨c, hc, d, hd, rfl⟩, rfl⟩, rfl⟩

/-- The octets of an address with dots are the pieces between the dots. -/
theorem largeOctet_dotted {a b c d : Bytes} (ha : Free [58, 46] a) (hb : Free [58, 46] b)
    (hc : Free [58, 46] c) (hd : Free [58, 46] d) :
    LargeOctet (a ++ 46 :: (b ++ 46 :: (c ++ 46 :: d))) ↔
      ∃ o ∈ [a, b, c, d], o ∈ largeOctet.language := by
  have hnot : ∀ {x : Bytes}, Free [58, 46] x → 46 ∉ x := fun h => h.not_mem (by decide)
  have hcolon : ∀ {x : Bytes}, Free [58, 46] x → Free [58] x := fun h => h.mono (by decide)
  have hfree : Free [58] (a ++ 46 :: (b ++ 46 :: (c ++ 46 :: d))) :=
    free_append.mpr ⟨hcolon ha, free_cons.mpr ⟨by decide, free_append.mpr ⟨hcolon hb,
      free_cons.mpr ⟨by decide, free_append.mpr ⟨hcolon hc,
        free_cons.mpr ⟨by decide, hcolon hd⟩⟩⟩⟩⟩⟩
  rw [LargeOctet, lastPiece_of_free hfree,
    List.splitOn_append_cons_self_of_not_mem (hnot ha),
    List.splitOn_append_cons_self_of_not_mem (hnot hb),
    List.splitOn_append_cons_self_of_not_mem (hnot hc), List.splitOn_eq_singleton (hnot hd)]
  simp

theorem ipv4_iff : w ∈ Rfc3986.ipv4Address.language ∧ ¬ LargeOctet w ↔
    w ∈ UriGrammar.ipv4Address.language ∧ 2 ∉ w := by
  rw [Rfc3986.ipv4Address, UriGrammar.ipv4Address, mem_dotted, mem_dotted]
  have hfree : ∀ {x : Bytes}, x ∈ Rfc3986.decOctet.language → Free [58, 46] x := fun h =>
    (free_octet h).mono (by decide)
  constructor
  · rintro ⟨⟨a, ha, b, hb, c, hc, d, hd, rfl⟩, hlarge⟩
    rw [largeOctet_dotted (hfree ha) (hfree hb) (hfree hc) (hfree hd)] at hlarge
    have hsmall : ∀ o ∈ [a, b, c, d], o ∉ largeOctet.language := fun o ho h => hlarge ⟨o, ho, h⟩
    simp only [List.forall_mem_cons] at hsmall
    obtain ⟨ha', hb', hc', hd', -⟩ := hsmall
    obtain ⟨ha, h2a⟩ := octet_iff.mp ⟨ha, ha'⟩
    obtain ⟨hb, h2b⟩ := octet_iff.mp ⟨hb, hb'⟩
    obtain ⟨hc, h2c⟩ := octet_iff.mp ⟨hc, hc'⟩
    obtain ⟨hd, h2d⟩ := octet_iff.mp ⟨hd, hd'⟩
    exact ⟨⟨a, ha, b, hb, c, hc, d, hd, rfl⟩, by simp [h2a, h2b, h2c, h2d]⟩
  · rintro ⟨⟨a, ha, b, hb, c, hc, d, hd, rfl⟩, htwo⟩
    simp only [List.mem_append, List.mem_cons, not_or] at htwo
    obtain ⟨h2a, -, h2b, -, h2c, -, h2d⟩ := htwo
    obtain ⟨ha, ha'⟩ := octet_iff.mpr ⟨ha, h2a⟩
    obtain ⟨hb, hb'⟩ := octet_iff.mpr ⟨hb, h2b⟩
    obtain ⟨hc, hc'⟩ := octet_iff.mpr ⟨hc, h2c⟩
    obtain ⟨hd, hd'⟩ := octet_iff.mpr ⟨hd, h2d⟩
    refine ⟨⟨a, ha, b, hb, c, hc, d, hd, rfl⟩, ?_⟩
    rw [largeOctet_dotted (hfree ha) (hfree hb) (hfree hc) (hfree hd)]
    simp [ha', hb', hc', hd']

/-! ## The ends of addresses -/

theorem mem_twoGroups : w ∈ (Regex.seqs [h16, .chr 58, h16]).language ↔
    ∃ a ∈ h16.language, ∃ b ∈ h16.language, w = a ++ 58 :: b := by
  have h58 : ∀ x : Bytes, x ∈ (Regex.chr 58).language ↔ x = [58] := fun x => mem_chr rfl
  change w ∈ h16.language * ((Regex.chr 58).language * h16.language) ↔ _
  simp only [Language.mem_mul, h58, exists_eq_left]
  constructor
  · rintro ⟨a, ha, _, ⟨b, hb, rfl⟩, rfl⟩
    exact ⟨a, ha, b, hb, rfl⟩
  · rintro ⟨a, ha, b, hb, rfl⟩
    exact ⟨a, ha, _, ⟨b, hb, rfl⟩, rfl⟩

theorem ls32_iff : w ∈ Rfc3986.ls32.language ∧ ¬ LargeOctet w ↔
    w ∈ UriGrammar.ls32.language ∧ 2 ∉ w := by
  have hgroups : w ∈ (Regex.seqs [h16, .chr 58, h16]).language → ¬ LargeOctet w ∧ 2 ∉ w := by
    intro h
    obtain ⟨a, ha, b, hb, rfl⟩ := mem_twoGroups.mp h
    refine ⟨?_, fun h2 => ?_⟩
    · rw [largeOctet_append]
      exact not_largeOctet ((free_h16 hb).mono (by decide))
    · rcases List.mem_append.mp h2 with h2 | h2
      · exact free_h16 ha 2 h2 (by decide)
      · exact free_h16 hb 2 ((List.mem_cons.mp h2).resolve_left (by decide)) (by decide)
  constructor
  · rintro ⟨h | h, hlarge⟩
    · exact ⟨Or.inl h, (hgroups h).2⟩
    · exact (ipv4_iff.mp ⟨h, hlarge⟩).imp_left Or.inr
  · rintro ⟨h | h, htwo⟩
    · exact ⟨Or.inl h, (hgroups h).1⟩
    · exact (ipv4_iff.mpr ⟨h, htwo⟩).imp_left Or.inr

theorem groupsBehind_iff : w ∈ (groupsBehind Rfc3986.ls32 m).language ∧ ¬ LargeOctet w ↔
    w ∈ (groupsBehind UriGrammar.ls32 m).language ∧ 2 ∉ w := by
  match m with
  | 0 =>
    refine and_congr_right fun h => ?_
    obtain rfl : w = [] := h
    exact iff_of_true (not_largeOctet free_nil) List.not_mem_nil
  | 1 =>
    refine and_congr_right fun h => iff_of_true ?_ ((free_h16 h).not_mem (by decide))
    exact not_largeOctet ((free_h16 h).mono (by decide))
  | m + 2 =>
    constructor
    · rintro ⟨⟨x, hx, y, hy, rfl⟩, hlarge⟩
      have hgroups := groups_of_mem hx
      rw [hgroups.largeOctet_iff] at hlarge
      obtain ⟨hy, htwo⟩ := ls32_iff.mp ⟨hy, hlarge⟩
      refine ⟨⟨x, hx, y, hy, rfl⟩, fun h2 => ?_⟩
      exact (List.mem_append.mp h2).elim (hgroups.free.not_mem (by decide)) htwo
    · rintro ⟨⟨x, hx, y, hy, rfl⟩, htwo⟩
      have hgroups := groups_of_mem hx
      obtain ⟨hy, hlarge⟩ := ls32_iff.mpr ⟨hy, fun h => htwo (List.mem_append_right _ h)⟩
      exact ⟨⟨x, hx, y, hy, rfl⟩, by rwa [hgroups.largeOctet_iff]⟩

/-! ## Counting -/

theorem getLast?_append_ne (w : Bytes) (hne : t ≠ []) (ht : Free [58] t) :
    (w ++ t).getLast? ≠ some 58 := by
  rw [List.getLast?_append_of_ne_nil _ hne]
  exact fun h => ht 58 (List.mem_of_getLast? h) (List.mem_singleton_self 58)

theorem count_of_free (h : Free [58] w) : w.count 58 = 0 :=
  List.count_eq_zero.mpr (h.not_mem (by decide))

theorem Groups.weight (h : Groups k w) (t : Bytes) : weight (w ++ t) = k + weight t := by
  have hdot : 46 ∉ w := h.free.not_mem (by decide)
  simp [HTTP.weight, h.count, hdot, Nat.add_assoc]

theorem weight_ls32 (h : w ∈ Rfc3986.ls32.language) :
    weight w = 1 ∧ w.getLast? ≠ some 58 ∧ w ≠ [] := by
  rcases h with h | h
  · obtain ⟨a, ha, b, hb, rfl⟩ := mem_twoGroups.mp h
    have hfa := free_h16 ha
    have hfb := free_h16 hb
    refine ⟨?_, ?_, by simp⟩
    · have hdot : 46 ∉ a ++ 58 :: b := by
        simpa using ⟨hfa.not_mem (by decide), hfb.not_mem (by decide)⟩
      rw [weight, if_neg hdot, List.count_append, List.count_cons_self,
        count_of_free (hfa.mono (by decide)), count_of_free (hfb.mono (by decide))]
    · have := getLast?_append_ne (a ++ [58]) (h16_ne_nil hb) (hfb.mono (by decide))
      rwa [List.append_assoc] at this
  · obtain ⟨a, ha, b, hb, c, hc, d, hd, rfl⟩ := mem_dotted.mp h
    have hfree : Free [58] (a ++ 46 :: (b ++ 46 :: (c ++ 46 :: d))) := free_of_letters h (by decide)
    refine ⟨?_, ?_, by simp⟩
    · rw [weight, count_of_free hfree, if_pos (by simp)]
    · exact getLast?_append_ne [] (by simp) hfree

theorem weight_groupsBehind (h : w ∈ (groupsBehind Rfc3986.ls32 m).language) :
    weight w = m - 1 ∧ (m ≠ 0 → w.getLast? ≠ some 58 ∧ w ≠ []) := by
  match m with
  | 0 =>
    obtain rfl : w = [] := h
    exact ⟨rfl, fun h => absurd rfl h⟩
  | 1 =>
    have hfree := free_h16 h
    have hdot : 46 ∉ w := hfree.not_mem (by decide)
    refine ⟨by rw [weight, if_neg hdot, count_of_free (hfree.mono (by decide))], fun _ => ?_⟩
    exact ⟨getLast?_append_ne [] (h16_ne_nil h) (hfree.mono (by decide)), h16_ne_nil h⟩
  | m + 2 =>
    obtain ⟨x, hx, y, hy, rfl⟩ := h
    obtain ⟨hweight, hlast, hne⟩ := weight_ls32 hy
    refine ⟨?_, fun _ => ⟨?_, by simp [hne]⟩⟩
    · rw [(groups_of_mem hx).weight, hweight]
      omega
    · rwa [List.getLast?_append_of_ne_nil _ hne]

/-- An address that does not begin with `::` has seven colons, where dots count as one, and one
    more if it ends with `::`. -/
def SevenColons (w : Bytes) : Prop :=
  w.head? = some 58 ∨ weight w = if w.getLast? = some 58 then 8 else 7

theorem front_of_mem (h : f ∈ (Regex.seq (times k h16Colon) h16).language) :
    f.head? ≠ some 58 ∧ f ≠ [] ∧ Free [46, 2] f ∧ f.count 58 = k := by
  obtain ⟨x, hx, y, hy, rfl⟩ := h
  obtain ⟨hcount, hfree, -, hhead⟩ := groups_of_mem hx
  have hfy := free_h16 hy
  refine ⟨?_, by simp [h16_ne_nil hy], free_append.mpr ⟨hfree, hfy.mono (by decide)⟩, ?_⟩
  · cases x with
    | nil => exact fun h58 => hfy 58 (List.mem_of_head? h58) (by decide)
    | cons b x => exact hhead
  · rw [List.count_append, hcount, count_of_free (hfy.mono (by decide)), Nat.add_zero]

theorem sevenColons_elided (hf : f ∈ (Regex.seq (times k h16Colon) h16).language)
    (ht : t ∈ (groupsBehind Rfc3986.ls32 m).language) :
    SevenColons (f ++ 58 :: 58 :: t) ↔ k + m = 6 := by
  obtain ⟨hhead, hne, hfree, hcount⟩ := front_of_mem hf
  obtain ⟨hweight, hlast⟩ := weight_groupsBehind ht
  have hhead' : (f ++ 58 :: 58 :: t).head? ≠ some 58 := by
    rwa [List.head?_append_of_ne_nil _ hne]
  have hall : weight (f ++ 58 :: 58 :: t) = k + 2 + weight t := by
    have hdot : 46 ∉ f := hfree.not_mem (by decide)
    simp [weight, hcount, hdot]
    omega
  rw [SevenColons, or_iff_right hhead', hall, hweight]
  by_cases hm : m = 0
  · subst hm
    obtain rfl : t = [] := ht
    rw [if_pos (by simp)]
    omega
  · obtain ⟨hlast, hne⟩ := hlast hm
    have hlast' : (f ++ 58 :: 58 :: t).getLast? ≠ some 58 := by
      have := List.getLast?_append_of_ne_nil (f ++ [58, 58]) hne
      rw [List.append_assoc] at this
      exact fun h58 => hlast (this.symm.trans h58)
    rw [if_neg hlast']
    omega

theorem sevenColons_full (h : w ∈ (groupsBehind Rfc3986.ls32 8).language) : SevenColons w := by
  obtain ⟨hweight, hlast⟩ := weight_groupsBehind h
  exact Or.inr (by rw [hweight, if_neg (hlast (by decide)).1])

/-- Both rules agree on the addresses with seven colons and no octet from 200 to 249. -/
theorem ipv6_iff :
    w ∈ Rfc3986.ipv6Address.language ∧ SevenColons w ∧ ¬ LargeOctet w ↔
      w ∈ UriGrammar.ipv6Address.language ∧ 2 ∉ w := by
  have hlast : ∀ f t : Bytes, LargeOctet (f ++ 58 :: 58 :: t) ↔ LargeOctet t := fun f t => by
    have := largeOctet_append (f ++ [58]) t
    rwa [List.append_assoc] at this
  have hbytes : ∀ {f t : Bytes}, 2 ∉ f → 2 ∉ t → 2 ∉ f ++ 58 :: 58 :: t := fun hf ht => by
    simp [hf, ht]
  rw [rfcIpv6Address_eq, ipv6Address_eq, mem_address rfl, mem_address rfl]
  constructor
  · rintro ⟨h | ⟨m, hm, f, t, rfl, ht, hf⟩, hseven, hlarge⟩
    · exact (groupsBehind_iff (m := 8).mp ⟨h, hlarge⟩).imp_left Or.inl
    · rw [hlast] at hlarge
      obtain ⟨ht', htwo⟩ := groupsBehind_iff.mp ⟨ht, hlarge⟩
      rcases hf with rfl | ⟨hm, x, hx, y, hy, rfl⟩
      · exact ⟨Or.inr ⟨m, hm, [], t, rfl, ht', Or.inl rfl⟩, hbytes List.not_mem_nil htwo⟩
      · obtain ⟨k, -, hk⟩ := mem_atMost.mp hx
        have hf : x ++ y ∈ (Regex.seq (times k h16Colon) h16).language := ⟨x, hk, y, hy, rfl⟩
        have hkm : k + m = 6 := (sevenColons_elided hf ht).mp hseven
        have hfree := (front_of_mem hf).2.2.1
        obtain rfl : k = 6 - m := by omega
        refine ⟨Or.inr ⟨m, by omega, _, t, rfl, ht', Or.inr ⟨hm, hf⟩⟩, ?_⟩
        exact hbytes (hfree.not_mem (by decide)) htwo
  · rintro ⟨h | ⟨m, hm, f, t, rfl, ht, hf⟩, htwo⟩
    · obtain ⟨h, hlarge⟩ := groupsBehind_iff (m := 8).mpr ⟨h, htwo⟩
      exact ⟨Or.inl h, sevenColons_full h, hlarge⟩
    · have htwo' : 2 ∉ t := fun h2 => htwo (by simp [h2])
      obtain ⟨ht, hlarge⟩ := groupsBehind_iff.mpr ⟨ht, htwo'⟩
      rw [hlast]
      rcases hf with rfl | ⟨hm, hf⟩
      · exact ⟨Or.inr ⟨m, hm, [], t, rfl, ht, Or.inl rfl⟩, Or.inl rfl, hlarge⟩
      · refine ⟨Or.inr ⟨m, by omega, f, t, rfl, ht, Or.inr ⟨hm, ?_⟩⟩, ?_, hlarge⟩
        · obtain ⟨x, hx, y, hy, rfl⟩ := hf
          exact ⟨x, mem_atMost.mpr ⟨6 - m, Nat.le_refl _, hx⟩, y, hy, rfl⟩
        · exact (sevenColons_elided hf ht).mpr (by omega)

/-! ## Hosts -/

theorem mem_regName (h : ∀ b ∈ w, inRanges (unreserved ++ subDelims) b = true) :
    w ∈ regName.language := by
  induction w with
  | nil => exact Regex.nil_mem_language.mpr rfl
  | cons b w ih =>
    rw [List.forall_mem_cons] at h
    exact Regex.cons_mem_language.mpr ⟨_, List.mem_cons_self, h.1, ih h.2⟩

/-- An address with dots is a registered name as well. -/
theorem regName_of_ipv4 (h : w ∈ Rfc3986.ipv4Address.language) : w ∈ regName.language := by
  have hoctet : ∀ {x : Bytes}, x ∈ Rfc3986.decOctet.language →
      ∀ b ∈ x, inRanges (unreserved ++ subDelims) b = true := by
    intro x hx b hb
    have hdigit : 48 ≤ b.toNat ∧ b.toNat ≤ 57 := by
      have := Regex.inRanges_letters hx hb
      simp [inRanges, Rfc3986.decOctet, Regex.letters, Regex.alts, Regex.seqs, Regex.chr,
        UriGrammar.digit] at this
      omega
    simp [inRanges, unreserved, UriGrammar.digit, hdigit]
  have hdot : inRanges (unreserved ++ subDelims) 46 = true := by decide
  obtain ⟨a, ha, b, hb, c, hc, d, hd, rfl⟩ := mem_dotted.mp h
  refine mem_regName ?_
  simp only [List.forall_mem_append, List.forall_mem_cons]
  exact ⟨hoctet ha, hdot, hoctet hb, hdot, hoctet hc, hdot, hoctet hd⟩

theorem plainHost_iff : w ∈ (Regex.alt Rfc3986.ipv4Address regName).language ↔
    w ∈ plainHost.language ∧ 2 ∉ w := by
  have hname : w ∈ regName.language → 2 ∉ w := by
    intro h
    have hfree : Free [2] w := free_of_letters h (by decide)
    exact hfree.not_mem (by decide)
  constructor
  · intro h
    have hreg : w ∈ regName.language := h.elim regName_of_ipv4 id
    exact ⟨Or.inr hreg, hname hreg⟩
  · rintro ⟨h | h, htwo⟩
    · exact Or.inl (ipv4_iff.mpr ⟨h, htwo⟩).1
    · exact Or.inr h

/-- What stands in brackets and is read differently: a future version with a capital letter, or an
    address that does not have its groups counted or has an octet from 200 to 249. -/
def UnreadLiteral (i : Bytes) : Prop :=
  i.head? = some 86 ∨ i ∈ Rfc3986.ipv6Address.language ∧ (¬ SevenColons i ∨ LargeOctet i)

theorem ipLiteral_iff : w ∈ Rfc3986.ipLiteral.language ∧ ¬ UnreadLiteral w ↔
    w ∈ UriGrammar.ipLiteral.language ∧ 2 ∉ w := by
  have hv : w ∈ Rfc3986.ipv6Address.language → w.head? ≠ some 86 ∧ w.head? ≠ some 118 := by
    intro h
    have hfree : Free [86, 118] w := free_of_letters h (by decide +kernel)
    exact ⟨fun h => hfree 86 (List.mem_of_head? h) (by decide),
      fun h => hfree 118 (List.mem_of_head? h) (by decide)⟩
  constructor
  · rintro ⟨h | h, hun⟩
    · rw [UnreadLiteral, not_or, not_and_or, not_or, not_not] at hun
      obtain ⟨h, htwo⟩ := ipv6_iff.mp ⟨h, (hun.2.resolve_left (not_not.mpr h))⟩
      exact ⟨Or.inl h, htwo⟩
    · have htwo : Free [2] w := free_of_letters h (by decide)
      refine ⟨Or.inr ?_, htwo.not_mem (by decide)⟩
      obtain ⟨_, ⟨b, hb, rfl⟩, y, hy, rfl⟩ := h
      refine ⟨[b], ⟨b, ?_, rfl⟩, y, hy, rfl⟩
      have heq : b = 86 ∨ b = 118 :=
        (Regex.inRanges_append (l := [(86, 86)]) (m := [(118, 118)])).mp hb |>.imp
          (eq_of_mem_chr rfl) (eq_of_mem_chr rfl)
      rcases heq with rfl | rfl
      · exact absurd (Or.inl rfl) hun
      · decide
  · rintro ⟨h | h, htwo⟩
    · obtain ⟨h, hseven, hlarge⟩ := ipv6_iff.mpr ⟨h, htwo⟩
      refine ⟨Or.inl h, ?_⟩
      rintro (h86 | ⟨-, hno | hno⟩)
      · exact (hv h).1 h86
      · exact hno hseven
      · exact hlarge hno
    · obtain ⟨_, ⟨b, hb, rfl⟩, y, hy, rfl⟩ := h
      obtain rfl : b = 118 := eq_of_mem_chr rfl hb
      refine ⟨Or.inr ⟨[118], ⟨118, by decide, rfl⟩, y, hy, rfl⟩, ?_⟩
      rintro (h86 | ⟨h6, -⟩)
      · cases h86
      · exact (hv h6).2 rfl

/-- A host that RFC 3986 allows and `uri.rl` does not. -/
def Unread (h : Bytes) : Prop := ∃ i, h = 91 :: (i ++ [93]) ∧ UnreadLiteral i

theorem rfcHost_iff : w ∈ Rfc3986.host.language ∧ ¬ Unread w ↔
    w ∈ UriGrammar.host.language ∧ 2 ∉ w := by
  have hunread : ∀ i, Unread (91 :: (i ++ [93])) ↔ UnreadLiteral i := by
    intro i
    refine ⟨?_, fun h => ⟨i, rfl, h⟩⟩
    rintro ⟨j, heq, h⟩
    rwa [List.append_cancel_right (List.cons.inj heq).2]
  have htwo : ∀ i : Bytes, 2 ∉ 91 :: (i ++ [93]) ↔ 2 ∉ i := by simp
  have hplain : w ∈ plainHost.language → ¬ Unread w := by
    rintro h ⟨i, rfl, -⟩
    exact free_plainHost h 91 List.mem_cons_self (by decide)
  rw [Rfc3986.host, mem_bracketed, mem_host]
  constructor
  · rintro ⟨⟨i, hi, rfl⟩ | h, hun⟩
    · rw [hunread] at hun
      obtain ⟨hi, h2⟩ := ipLiteral_iff.mp ⟨hi, hun⟩
      exact ⟨Or.inl ⟨i, hi, rfl⟩, (htwo i).mpr h2⟩
    · exact (plainHost_iff.mp h).imp_left Or.inr
  · rintro ⟨⟨i, hi, rfl⟩ | h, h2⟩
    · obtain ⟨hi, hun⟩ := ipLiteral_iff.mpr ⟨hi, (htwo i).mp h2⟩
      exact ⟨Or.inl ⟨i, hi, rfl⟩, fun h => hun ((hunread i).mp h)⟩
    · exact ⟨Or.inr (plainHost_iff.mpr ⟨h, h2⟩), hplain h⟩

end CppServerFramework.HTTP

import CppServerFramework.HTTP.UriRun
import Mathlib.Data.List.TakeWhile

/-!
# What becomes of an authority

The text of a user and a host with its port begin in the same state, and the mark moves for both:
which of them it was is known at the next delimiter only.
-/

namespace CppServerFramework.HTTP
open UriAction UriGrammar UriParsing

variable {before w rest : Bytes} {b : UInt8} {s t p : Nat} {x y : UriParsing} {v v₀ : Uri}
  {u : UriParts} {scheme : Bool}

/-- `v` with what is stored from the path on: the path only where there is a scheme. -/
def UriParts.storeEnd (u : UriParts) (scheme : Bool) (v : Uri) : Uri :=
  u.storeTail (if scheme then { v with path := u.path } else v)

/-- An empty port is not stored. -/
def Uri.storePort (v : Uri) (port : Bytes) : Uri :=
  if port = [] then v else { v with port := atoi port }

/-- What stands behind a host is of its grammar, and does not begin with a colon and no port if
    there is a scheme. -/
structure UriParts.BehindHost (u : UriParts) (scheme : Bool) (o : Option Bytes) : Prop where
  port : ∀ w ∈ o, w ∈ UriGrammar.port.language
  path : u.path ∈ pathAbempty.language
  tail : u.TailGrammatical
  noPort : scheme = true → o ≠ some []

/-- What is stored of the text of a user.  A digit behind the first colon is taken for the first
    of a port, and the mark is set there. -/
def keptUserinfo (w : Bytes) : Bytes :=
  match (cutAt [58] w).2 with
  | 58 :: d :: r => if 48 ≤ d ∧ d ≤ 57 then d :: r else w
  | _ => w

/-- The states behind a scheme, or of a relative reference. -/
def hier (scheme : Bool) : Hier := if scheme then absolute else relative

theorem hier_checked (scheme : Bool) : (hier scheme).Checked := by
  cases scheme
  · exact Hier.checked (Or.inl rfl)
  · exact Hier.checked (Or.inr rfl)

theorem hier_delimiting (scheme : Bool) : (hier scheme).Delimiting := by
  cases scheme
  · exact Hier.delimiting (Or.inl rfl)
  · exact Hier.delimiting (Or.inr rfl)

/-- What `v` becomes behind the authority. -/
def UriAuthority.store (a : UriAuthority) (v : Uri) : Uri :=
  { v with userinfo := (a.userinfo.map keptUserinfo).getD v.userinfo,
           host := a.host }.storePort (a.port.getD [])

/-! ## Users -/

theorem keptUserinfo_of_free (h : Free [58] w) : keptUserinfo w = w := by
  rw [keptUserinfo, cutAt_eq.mpr ⟨(List.append_nil w).symm, h, stops_nil⟩]

theorem keptUserinfo_colon (h : Free [58] w) (d : UInt8) (r : Bytes) :
    keptUserinfo (w ++ 58 :: d :: r) =
      if 48 ≤ d ∧ d ≤ 57 then d :: r else w ++ 58 :: d :: r := by
  rewrite [keptUserinfo, cutAt_eq.mpr ⟨rfl, h, stops_cons.mpr (by decide)⟩]
  rfl

theorem keptUserinfo_end (h : Free [58] w) : keptUserinfo (w ++ [58]) = w ++ [58] := by
  rewrite [keptUserinfo, cutAt_eq.mpr ⟨rfl, h, stops_cons.mpr (by decide)⟩]
  rfl

theorem userinfo_of_append (h : w ++ 58 :: rest ∈ userinfo.language) :
    w ∈ userinfo.language ∧ rest ∈ userinfo.language := by
  refine Regex.mem_star_of_append (fun x hx hb => ?_) h
  rcases hx with ⟨c, -, rfl⟩ | hx
  · rw [List.mem_singleton.mp hb]
  · exact absurd (Regex.inRanges_letters hx hb) (by decide)

/-! ## Hosts -/

theorem free_of_letters {r : Regex} {ds : List UInt8} (h : w ∈ r.language)
    (hds : (ds.all fun d => !inRanges r.letters d) = true) : Free ds w := by
  intro b hb hd
  have hnot := List.all_eq_true.mp hds b hd
  rw [Regex.inRanges_letters h hb] at hnot
  cases hnot

theorem mem_chr {n : Nat} {c : UInt8} (hc : c.toNat = n) :
    w ∈ (Regex.chr n).language ↔ w = [c] := by
  constructor
  · rintro ⟨b, hb, rfl⟩
    simp only [inRanges, List.any_cons, List.any_nil, Bool.or_false, Bool.and_eq_true,
      decide_eq_true_eq] at hb
    rw [UInt8.toNat_inj.mp (show b.toNat = c.toNat by omega)]
  · rintro rfl
    exact ⟨c, by simp [inRanges, hc], rfl⟩

/-- Something in brackets, or what stands without. -/
theorem mem_bracketed {r q : Regex} :
    w ∈ (Regex.alt (Regex.seqs [.chr 91, r, .chr 93]) q).language ↔
      (∃ i ∈ r.language, w = 91 :: (i ++ [93])) ∨ w ∈ q.language := by
  have h91 : ∀ x : Bytes, x ∈ (Regex.chr 91).language ↔ x = [91] := fun x => mem_chr rfl
  have h93 : ∀ x : Bytes, x ∈ (Regex.chr 93).language ↔ x = [93] := fun x => mem_chr rfl
  change w ∈ (Regex.chr 91).language * (r.language * (Regex.chr 93).language) + q.language ↔ _
  rw [Language.mem_add]
  simp only [Language.mem_mul, h91, h93, exists_eq_left, List.singleton_append, eq_comm (b := w)]
  refine or_congr ⟨?_, ?_⟩ Iff.rfl
  · rintro ⟨_, ⟨i, hi, rfl⟩, rfl⟩
    exact ⟨i, hi, rfl⟩
  · rintro ⟨i, hi, rfl⟩
    exact ⟨_, ⟨i, hi, rfl⟩, rfl⟩

theorem mem_host : w ∈ host.language ↔
    (∃ i ∈ ipLiteral.language, w = 91 :: (i ++ [93])) ∨ w ∈ plainHost.language := mem_bracketed

theorem free_ipLiteral (h : w ∈ ipLiteral.language) : Free [93] w :=
  free_of_letters h (by decide +kernel)

theorem free_plainHost (h : w ∈ plainHost.language) : Free [91] w :=
  free_of_letters h (by decide)

theorem not_mem_host (h : Free [93] w) : 91 :: w ∉ host.language := by
  rw [mem_host]
  rintro (⟨i, -, heq⟩ | hplain)
  · rw [(List.cons.inj heq).2] at h
    exact h 93 (by simp) (by decide)
  · exact free_plainHost hplain 91 List.mem_cons_self (by decide)

theorem literal_mem_host (h : Free [93] w) :
    91 :: (w ++ 93 :: rest) ∈ host.language ↔ w ∈ ipLiteral.language ∧ rest = [] := by
  rw [mem_host]
  constructor
  · rintro (⟨i, hi, heq⟩ | hplain)
    · obtain ⟨rfl, hrest⟩ := append_inj_of_stops (List.cons.inj heq).2 h (free_ipLiteral hi)
        (stops_cons.mpr (by decide)) (stops_cons.mpr (by decide))
      exact ⟨hi, (List.cons.inj hrest).2⟩
    · exact absurd (by decide) (free_plainHost hplain 91 List.mem_cons_self)
  · rintro ⟨hw, rfl⟩
    exact Or.inl ⟨w, hw, rfl⟩

theorem plain_mem_host (h : w.head? ≠ some 91) :
    w ∈ host.language ↔ w ∈ plainHost.language := by
  rw [mem_host, or_iff_right]
  rintro ⟨i, -, rfl⟩
  exact h rfl

/-! ## Ports -/

theorem digit_of_mem_port (h : w ∈ UriGrammar.port.language) (hb : b ∈ w) : 48 ≤ b ∧ b ≤ 57 := by
  have hin := Regex.inRanges_letters h hb
  simp only [UriGrammar.port, Regex.letters, UriGrammar.digit, inRanges, List.any_cons,
    List.any_nil, Bool.or_false, Bool.and_eq_true, decide_eq_true_eq] at hin
  exact ⟨UInt8.le_iff_toNat_le.mpr hin.1, UInt8.le_iff_toNat_le.mpr hin.2⟩

theorem digitOf_digit (h : 48 ≤ b ∧ b ≤ 57) : digitOf b = b.toNat - 48 := if_pos h

theorem digitOf_lt (h : 48 ≤ b ∧ b ≤ 57) : decide (digitOf b < 10) = true := by
  rw [digitOf_digit h, decide_eq_true_eq]
  rw [UInt8.le_iff_toNat_le, UInt8.le_iff_toNat_le] at h
  change 48 ≤ _ ∧ _ ≤ 57 at h
  omega

/-- A number ends in front of the path. -/
theorem atoi_append (hw : ∀ b ∈ w, 48 ≤ b ∧ b ≤ 57) (hne : w ≠ [])
    (hrest : Stops [47, 63, 35] rest) : atoi (w ++ rest) = atoi w := by
  have hlt : ∀ b ∈ w, decide (digitOf b < 10) = true := fun b hb => digitOf_lt (hw b hb)
  have hstop : rest.takeWhile (fun b => decide (digitOf b < 10)) = [] := by
    cases rest with
    | nil => rfl
    | cons c rest =>
      have hc : decide (digitOf c < 10) = false := by
        have := stops_cons.mp hrest
        simp only [List.mem_cons, List.not_mem_nil, or_false] at this
        rcases this with rfl | rfl | rfl <;> decide
      rw [List.takeWhile_cons, hc]
      rfl
  cases w with
  | nil => exact absurd rfl hne
  | cons d w =>
    have hd := hw d List.mem_cons_self
    have htake : (d :: (w ++ rest)).takeWhile (fun b => decide (digitOf b < 10)) =
        (d :: w).takeWhile fun b => decide (digitOf b < 10) := by
      rw [← List.cons_append, List.takeWhile_append_of_pos hlt, hstop, List.append_nil,
        List.takeWhile_eq_self_iff.mpr hlt]
    rw [List.cons_append, atoi_cons hd, atoi_cons hd, htake]

/-! ## The scanner -/

namespace Leads

/-- From the mark on, the text up to the query is the path. -/
theorem fin_iff :
    (∃ z, does (before ++ (u.path ++ u.tail)) (before ++ u.path).length ⟨some before.length, v₀⟩
      (hier scheme).fin = .ok z ∧ v = u.storeTail z.uri) ↔ v = u.storeEnd scheme v₀ := by
  cases scheme with
  | false => simp [hier, relative, does_nil, UriParts.storeEnd]
  | true =>
    rw [show (hier true).fin = [savePath] from rfl, does_savePath _ rfl List.length_append]
    simp [UriParts.storeEnd]

theorem entry_iff :
    (∃ y, x.does (before ++ (u.path ++ u.tail)) before.length (hier scheme).entry = .ok y ∧
      ∃ z, y.does (before ++ (u.path ++ u.tail)) (before ++ u.path).length (hier scheme).fin =
        .ok z ∧ v = u.storeTail z.uri) ↔ v = u.storeEnd scheme x.uri := by
  cases scheme with
  | false => simp [hier, relative, does_nil, UriParts.storeEnd]
  | true =>
    have hmark : x.does (before ++ (u.path ++ u.tail)) before.length (hier true).entry =
        .ok ⟨some before.length, x.uri⟩ := rfl
    simp only [hmark, Except.ok.injEq, exists_eq_left']
    exact fin_iff

theorem behindHost_path (hu : u.Delimited) (hstop : Stops [47] u.path)
    (hleaves : (hier scheme).leaves t (saveHost :: (hier scheme).entry) = true) :
    Leads (before ++ w) t ⟨some before.length, v₀⟩ (u.path ++ u.tail) v ↔
      u.path ∈ pathAbempty.language ∧ u.TailGrammatical ∧
        v = u.storeEnd scheme { v₀ with host := w } := by
  rw [abempty_iff (hier_checked scheme) (hier_delimiting scheme) hu hleaves hstop hu.path,
    does_saveHost w (List.append_assoc _ _ _) List.length_append, entry_iff]

theorem noHost_path (hu : u.Delimited) (hstop : Stops [47] u.path)
    (hleaves : (hier scheme).leaves t [markH, saveHost] = true) :
    Leads before t x (u.path ++ u.tail) v ↔ u.path ∈ pathAbempty.language ∧ u.TailGrammatical ∧
      v = u.storeEnd scheme { x.uri with host := [] } := by
  have hsave : x.does (before ++ (u.path ++ u.tail)) before.length [markH, saveHost] =
      .ok ⟨some before.length, { x.uri with host := [] }⟩ := by
    rw [does_markH]
    exact does_saveHost [] rfl rfl x.uri
  rw [abempty_iff (hier_checked scheme) (hier_delimiting scheme) hu hleaves hstop hu.path, hsave]
  simp only [Except.ok.injEq, exists_eq_left', fin_iff]

/-- A port that is not empty, in front of the path. -/
theorem behindPort_path (hu : u.Delimited) (hstop : Stops [47] u.path)
    (hleaves : (hier scheme).leaves t (savePort :: (hier scheme).entry) = true)
    (hw : w ∈ UriGrammar.port.language) (hne : w ≠ []) :
    Leads (before ++ w) t ⟨some before.length, v₀⟩ (u.path ++ u.tail) v ↔
      u.path ∈ pathAbempty.language ∧ u.TailGrammatical ∧
        v = u.storeEnd scheme { v₀ with port := atoi w } := by
  have hrest := u.path_stops hstop
  have hsave : ∀ as, does (before ++ w ++ (u.path ++ u.tail)) (before ++ w).length
      ⟨some before.length, v₀⟩ (savePort :: as) = does (before ++ w ++ (u.path ++ u.tail))
        (before ++ w).length ⟨none, { v₀ with port := atoi w }⟩ as := by
    intro as
    have hne' : before.length ≠ (before ++ w).length := by
      have := List.length_pos_of_ne_nil hne
      rw [List.length_append]
      omega
    have hact : act (before ++ w ++ (u.path ++ u.tail)) (before ++ w).length
        ⟨some before.length, v₀⟩ savePort = .ok ⟨none, { v₀ with port := atoi w }⟩ := by
      rw [act, if_neg (by simpa using hne')]
      simp only [List.append_assoc, List.drop_left]
      rw [atoi_append (fun b hb => digit_of_mem_port hw hb) hne hrest]
    rw [does, List.map_cons, acts, List.foldlM_cons, hact]
    rfl
  rw [abempty_iff (hier_checked scheme) (hier_delimiting scheme) hu hleaves hstop hu.path, hsave,
    entry_iff]

/-- Where the port is empty the mark is null behind it. -/
theorem noPort_path (hu : u.Delimited) (hstop : Stops [47] u.path)
    (hleaves : (hier scheme).leaves t [markH, savePort] = true) :
    Leads before t x (u.path ++ u.tail) v ↔ u.path ∈ pathAbempty.language ∧ u.TailGrammatical ∧
      scheme = false ∧ v = u.storeEnd scheme x.uri := by
  have hsave : x.does (before ++ (u.path ++ u.tail)) before.length [markH, savePort] =
      .ok ⟨none, x.uri⟩ := by
    rw [does_markH, does_singleton, act, if_pos rfl]
  rw [abempty_iff (hier_checked scheme) (hier_delimiting scheme) hu hleaves hstop hu.path, hsave]
  simp only [Except.ok.injEq, exists_eq_left']
  cases scheme with
  | false => simp [hier, relative, does_nil, UriParts.storeEnd]
  | true =>
    rw [show (hier true).fin = [savePath] from rfl, does_singleton]
    simp [act, marked, bind, Except.bind]

theorem port_iff (es : List UInt8) (hu : u.Delimited) (hstop : Stops [47] u.path)
    (hleaves : (hier scheme).leaves s [markH, savePort] = true)
    (hdec : (hier scheme).decidesPort s (es.map UInt8.toNat) = true) (hfree : Free es w) :
    Leads before s x (w ++ (u.path ++ u.tail)) v ↔
      u.BehindHost scheme (some w) ∧ v = u.storeEnd scheme (x.uri.storePort w) := by
  have hrest := u.path_stops hstop
  have hbehind : u.BehindHost scheme (some w) ↔ w ∈ UriGrammar.port.language ∧
      u.path ∈ pathAbempty.language ∧ u.TailGrammatical ∧ (scheme = true → w ≠ []) := by
    constructor
    · rintro ⟨hport, hpath, htail, hne⟩
      exact ⟨hport w rfl, hpath, htail, fun h h' => hne h (congrArg some h')⟩
    · rintro ⟨hport, hpath, htail, hne⟩
      refine ⟨?_, hpath, htail, fun h h' => hne h (Option.some.inj h')⟩
      rintro w ⟨⟩
      exact hport
  rw [hbehind]
  cases w with
  | nil =>
    have hnil : [] ∈ UriGrammar.port.language := Regex.nil_mem_language.mpr (by decide)
    rw [List.nil_append, noPort_path hu hstop hleaves]
    simp only [hnil, Uri.storePort, if_true, ne_eq, not_true, imp_false, Bool.not_eq_true, true_and,
      and_assoc]
  | cons b w =>
    obtain ⟨hb, hw⟩ := free_cons.mp hfree
    have hpart : Leads before s x (b :: w ++ (u.path ++ u.tail)) v ↔
        b :: w ∈ UriGrammar.port.language ∧ u.path ∈ pathAbempty.language ∧ u.TailGrammatical ∧
          v = u.storeEnd scheme { x.uri with port := atoi (b :: w) } := by
      refine decidesPart_iff es es hdec rfl hb hw (fun t y h => h.ends hrest) marks_markH
        fun hmem t ht => ?_
      exact behindPort_path hu hstop ht hmem (List.cons_ne_nil b w)
    rw [hpart]
    simp [Uri.storePort, and_assoc]

/-- From the state `s` a port is read behind its colon. -/
def ReadsPort (u : UriParts) (scheme : Bool) (s : Nat) (w : Bytes) : Prop :=
  ∀ before x v, Leads before s x (w ++ (u.path ++ u.tail)) v ↔
    u.BehindHost scheme (some w) ∧ v = u.storeEnd scheme (x.uri.storePort w)

theorem behindHost_none : u.BehindHost scheme none ↔
    u.path ∈ pathAbempty.language ∧ u.TailGrammatical := by
  constructor
  · rintro ⟨-, hpath, htail, -⟩
    exact ⟨hpath, htail⟩
  · rintro ⟨hpath, htail⟩
    exact ⟨fun _ h => (by cases h), hpath, htail, fun _ h => (by cases h)⟩

/-- A colon and a port, or none, behind a host. -/
theorem behindHost_iff {o : Option Bytes} {ports : List Nat} (hu : u.Delimited)
    (hstop : Stops [47] u.path)
    (hleaves : (hier scheme).leaves t (saveHost :: (hier scheme).entry) = true)
    (hnext : ∃ q ∈ ports, uriParserScanner.next t 58 = (q, [saveHost]))
    (hports : ∀ q ∈ ports, q ≠ 0 ∧ ∀ p ∈ o, ReadsPort u scheme q p) :
    Leads (before ++ w) t ⟨some before.length, v₀⟩
        (prefixed [58] o ++ (u.path ++ u.tail)) v ↔
      u.BehindHost scheme o ∧
        v = u.storeEnd scheme ({ v₀ with host := w }.storePort (o.getD [])) := by
  cases o with
  | none =>
    rw [prefixed, List.nil_append, behindHost_path hu hstop hleaves, behindHost_none, and_assoc]
    simp [Uri.storePort]
  | some p =>
    obtain ⟨q, hq, hnext⟩ := hnext
    obtain ⟨hzero, hread⟩ := hports q hq
    rw [prefixed, List.singleton_append, List.cons_append, cons, hnext,
      does_saveHost w (List.append_assoc _ _ _) List.length_append, does_nil]
    simp [hzero, hread p rfl _ _ _]

/-- The host is empty. -/
theorem noHost_iff {o : Option Bytes} {q : Nat} (hu : u.Delimited) (hstop : Stops [47] u.path)
    (hleaves : (hier scheme).leaves s [markH, saveHost] = true)
    (hnext : uriParserScanner.next s 58 = (q, [markH, saveHost])) (hzero : q ≠ 0)
    (hread : ∀ p ∈ o, ReadsPort u scheme q p) :
    Leads before s x (prefixed [58] o ++ (u.path ++ u.tail)) v ↔
      u.BehindHost scheme o ∧
        v = u.storeEnd scheme ({ x.uri with host := [] }.storePort (o.getD [])) := by
  cases o with
  | none =>
    rw [prefixed, List.nil_append, noHost_path hu hstop hleaves, behindHost_none, and_assoc]
    simp [Uri.storePort]
  | some p =>
    have hsave : x.does (before ++ 58 :: (p ++ (u.path ++ u.tail))) before.length
        [markH, saveHost] = .ok ⟨some before.length, { x.uri with host := [] }⟩ := by
      rw [does_markH]
      exact does_saveHost [] rfl rfl x.uri
    rw [prefixed, List.singleton_append, List.cons_append, cons, hnext, hsave]
    simp [hzero, hread p rfl _ _ _]

/-- What stands behind the bracket that opens a literal. -/
theorem literal_iff {o : Option Bytes} (hu : u.Delimited)
    (hstop : Stops [47] u.path) (hfree : Free [47, 63, 35] w)
    (hliteral : (Free [93] w ∧ o = none) ∨ ∃ i z, w = i ++ 93 :: z ∧ Free [93] i ∧ Free [58] z)
    (hport : ∀ p ∈ o, ReadsPort u scheme (hier scheme).port p) :
    Leads (before ++ [91]) (hier scheme).literal ⟨some before.length, v₀⟩
        (w ++ (prefixed [58] o ++ (u.path ++ u.tail))) v ↔
      91 :: w ∈ host.language ∧ u.BehindHost scheme o ∧
        v = u.storeEnd scheme ({ v₀ with host := 91 :: w }.storePort (o.getD [])) := by
  have hc := hier_checked scheme
  have hd := hier_delimiting scheme
  have hrest := u.path_stops hstop
  rcases hliteral with ⟨hw, rfl⟩ | ⟨i, z, rfl, hi, hz⟩
  · -- no bracket closes the literal, and nothing else may follow it
    refine iff_of_false ?_ fun h => not_mem_host hw h.1
    cases w with
    | nil =>
      intro h
      have := h.ends hrest
      rw [hd.literal.1] at this
      cases this
    | cons c w =>
      have hpart : Leads (before ++ [91]) (hier scheme).literal ⟨some before.length, v₀⟩
          (c :: w ++ (u.path ++ u.tail)) v ↔ c :: w ∈ ipLiteral.language ∧ False := by
        have hall : Free [47, 63, 35, 93] (c :: w) := hfree.union hw
        refine decidesPart_iff [47, 63, 35, 93] [47, 63, 35, 93] hc.ipLiteral rfl
          (free_cons.mp hall).1 (free_cons.mp hall).2
          (fun t y h => by simp [h.ends hrest]) does_nil fun _ t ht => ?_
        refine iff_of_false (fun h => ?_) id
        simp only [Bool.and_eq_true, Bool.not_eq_true', decide_eq_true_eq] at ht
        rw [h.ends hrest] at ht
        cases ht.1
      exact fun h => (hpart.mp h).2
  · obtain ⟨hfi, hfz⟩ := free_append.mp hfree
    have hfz := (free_cons.mp hfz).2
    rw [literal_mem_host hi]
    cases i with
    | nil =>
      refine iff_of_false (fun h => (cons.mp h).1 hd.literal.2) fun h => ?_
      exact absurd (Regex.nil_mem_language.mp h.1.1) (by decide)
    | cons c i =>
      have hall : Free [47, 63, 35, 93] (c :: i) := hfi.union hi
      rw [and_assoc]
      suffices h : Leads (before ++ [91]) (hier scheme).literal ⟨some before.length, v₀⟩
          (c :: i ++ 93 :: (z ++ (prefixed [58] o ++ (u.path ++ u.tail)))) v ↔
          c :: i ∈ ipLiteral.language ∧ z = [] ∧ u.BehindHost scheme o ∧
            v = u.storeEnd scheme
              ({ v₀ with host := 91 :: (c :: i ++ 93 :: z) }.storePort (o.getD [])) by
        rwa [← List.cons_append, ← List.append_assoc] at h
      refine decidesPart_iff [47, 63, 35, 93] [47, 63, 35, 93] hc.ipLiteral rfl
        (free_cons.mp hall).1 (free_cons.mp hall).2
        (fun t y h => by simp [(cons.mp h).1]) does_nil fun _ t ht => ?_
      simp only [Bool.and_eq_true, Bool.not_eq_true', decide_eq_true_eq] at ht
      rw [cons, ht.2]
      simp only [does_nil, Except.ok.injEq, exists_eq_left']
      have hzero : (hier scheme).literalEnd ≠ 0 := by
        have := hd.literalEnd.1
        simp only [Hier.leaves, Bool.and_eq_true] at this
        have := final_of_endsWith this.1
        omega
      cases z with
      | nil =>
        have hbehind : Leads (before ++ 91 :: (c :: i ++ [93])) (hier scheme).literalEnd
            ⟨some before.length, v₀⟩ (prefixed [58] o ++ (u.path ++ u.tail)) v ↔ _ :=
          behindHost_iff hu hstop hd.literalEnd.1 ⟨_, List.mem_singleton_self _, hd.literalEnd.2⟩
            fun q hq => List.mem_singleton.mp hq ▸ ⟨by cases scheme <;> decide, hport⟩
        simpa [hzero] using hbehind
      | cons d z =>
        refine iff_of_false ?_ fun h => (by cases h.1)
        rintro ⟨-, h⟩
        have hmem : d :: z ∈ Regex.eps.language ∧ True := by
          have hall : Free [47, 63, 35, 58] (d :: z) := hfz.union hz
          refine (decidesPart_iff [47, 63, 35, 58] [47, 63, 35, 58] hc.literalEnd rfl
            (free_cons.mp hall).1 (free_cons.mp hall).2 (fun t y h => ?_) does_nil
            fun hmem => ?_).mp h
          · cases o with
            | none => simp [h.ends hrest]
            | some p => simp [(cons.mp h).1]
          · cases hmem
        cases hmem.1

/-- A host, where `ds` are the bytes that end one without brackets. -/
theorem host_iff (ds : List UInt8) {o : Option Bytes} {ports : List Nat} {q : Nat}
    (hu : u.Delimited) (hstop : Stops [47] u.path)
    (hempty : (hier scheme).leaves s [markH, saveHost] = true)
    (hcolon : uriParserScanner.next s 58 = (q, [markH, saveHost]))
    (hbracket : uriParserScanner.next s 91 = ((hier scheme).literal, [markH]))
    (hdec : decidesPart [markH] ((hier scheme).hostExits ports) ((ds ++ [91]).map UInt8.toNat)
      (ds.map UInt8.toNat) s plainHost = true)
    (hports : w.head? ≠ some 91 → ∀ q ∈ ports, q ≠ 0 ∧ ∀ p ∈ o, ReadsPort u scheme q p)
    (hq : q ∈ ports) (hport : ∀ p ∈ o, ReadsPort u scheme (hier scheme).port p)
    (hfree : Free [47, 63, 35] w)
    (hplain : w.head? ≠ some 91 → Free ds w)
    (hliteral : ∀ x, w = 91 :: x →
      (Free [93] x ∧ o = none) ∨ ∃ i z, x = i ++ 93 :: z ∧ Free [93] i ∧ Free [58] z) :
    Leads before s x (w ++ (prefixed [58] o ++ (u.path ++ u.tail))) v ↔
      w ∈ host.language ∧ u.BehindHost scheme o ∧
        v = u.storeEnd scheme ({ x.uri with host := w }.storePort (o.getD [])) := by
  have hrest := u.path_stops hstop
  cases w with
  | nil =>
    have hnil : [] ∈ host.language := Regex.nil_mem_language.mpr (by decide)
    obtain ⟨hzero, hread⟩ := hports (by simp) q hq
    rw [List.nil_append, noHost_iff hu hstop hempty hcolon hzero hread]
    simp [hnil]
  | cons b w =>
    by_cases hb : b = 91
    · subst hb
      have hzero : (hier scheme).literal ≠ 0 := by cases scheme <;> decide
      rw [List.cons_append, cons, hbracket, marks_markH]
      simp only [Except.ok.injEq, exists_eq_left']
      rw [literal_iff hu hstop (free_cons.mp hfree).2 (hliteral w rfl) hport]
      simp [hzero]
    · have hhead : (b :: w).head? ≠ some 91 := by simpa using hb
      have hds := hplain hhead
      rw [plain_mem_host hhead]
      refine decidesPart_iff (ds ++ [91]) ds hdec rfl ?_ (free_cons.mp hds).2 (fun t y h => ?_)
        marks_markH fun _ t ht => ?_
      · simpa [hb] using (free_cons.mp hds).1
      · cases o with
        | none => simp [h.ends hrest]
        | some p => simp [(cons.mp h).1]
      · simp only [Bool.and_eq_true, List.any_eq_true, decide_eq_true_eq] at ht
        exact behindHost_iff hu hstop ht.1 ht.2 (hports hhead)

/-- The text of a user behind its first colon. -/
theorem behindColon_iff {r : Bytes} (hw : Free [58] w) (hr : r ∈ userinfo.language)
    (hfree : Free [47, 63, 35, 64] r) :
    Leads (before ++ (w ++ [58])) (hier scheme).firstPort ⟨some before.length, v₀⟩
        (r ++ 64 :: rest) v ↔
      Leads (before ++ (w ++ 58 :: r) ++ [64]) (hier scheme).afterAt
        ⟨none, { v₀ with userinfo := keptUserinfo (w ++ 58 :: r) }⟩ rest v := by
  have hc := hier_checked scheme
  have hd := hier_delimiting scheme
  have hzero : (hier scheme).afterAt ≠ 0 := by cases scheme <;> decide
  cases r with
  | nil =>
    rw [List.nil_append, cons, hd.firstPort.2, keptUserinfo_end hw,
      does_saveUserinfo (w ++ [58]) (List.append_assoc _ _ _) List.length_append]
    simp [hzero]
  | cons d r =>
    obtain ⟨hd', hr'⟩ := free_cons.mp hfree
    have hall : ∀ c ∈ r, (without [47, 63, 35, 64]).testBit c.toNat = true := fun c hc =>
      testBit_of_not_mem (hr' c hc)
    rw [keptUserinfo_colon hw]
    split
    · rename_i hdigit
      have hbit : (mask UriGrammar.digit).testBit d.toNat = true := by
        rw [testBit_mask]
        simpa [inRanges, UriGrammar.digit, UInt8.le_iff_toNat_le] using hdigit
      have hpart : Leads (before ++ (w ++ [58])) (hier scheme).firstPort ⟨some before.length, v₀⟩
          (d :: r ++ 64 :: rest) v ↔ d :: r ∈ userinfo.language ∧
            Leads (before ++ (w ++ 58 :: d :: r) ++ [64]) (hier scheme).afterAt
              ⟨none, { v₀ with userinfo := d :: r }⟩ rest v := by
        refine part_iff hc.digit hbit hall (fun t y h => by simp [(cons.mp h).1]) marks_markH
          fun _ t ht => ?_
        rw [cons, of_decide_eq_true ht,
          does_saveUserinfo (d :: r) (List.append_assoc _ _ _) List.length_append]
        simp [hzero]
      rw [hpart, and_iff_right hr]
    · rename_i hdigit
      have hpart : Leads (before ++ (w ++ [58])) (hier scheme).firstPort ⟨some before.length, v₀⟩
          (d :: r ++ 64 :: rest) v ↔ d :: r ∈ userinfo.language ∧
            Leads (before ++ (w ++ 58 :: d :: r) ++ [64]) (hier scheme).afterAt
              ⟨none, { v₀ with userinfo := w ++ 58 :: d :: r }⟩ rest v := by
        refine decidesPart_iff [47, 63, 35, 64, 48, 49, 50, 51, 52, 53, 54, 55, 56, 57]
          [47, 63, 35, 64] hc.noDigit rfl ?_ hr' (fun t y h => by simp [(cons.mp h).1]) does_nil
          fun _ t ht => ?_
        · intro hin
          have hdigits : ([48, 49, 50, 51, 52, 53, 54, 55, 56, 57].all fun c : UInt8 =>
              decide (48 ≤ c ∧ c ≤ 57)) = true := by decide
          rcases List.mem_append.mp (show d ∈ [47, 63, 35, 64] ++ _ from hin) with hin | hin
          · exact hd' hin
          · exact hdigit (of_decide_eq_true (List.all_eq_true.mp hdigits d hin))
        · have htext : before ++ (w ++ [58]) ++ d :: r ++ 64 :: rest =
              before ++ ((w ++ 58 :: d :: r) ++ 64 :: rest) := by simp
          rw [cons, of_decide_eq_true ht,
            does_saveUserinfo (w ++ 58 :: d :: r) htext (by simp)]
          simp [hzero]
      rw [hpart, and_iff_right hr]

/-- A text that may belong to the user and may be a host, in front of an at sign or a colon. -/
theorem name_iff {P : Prop} {c : UInt8} (hc : c = 64 ∨ c = 58)
    (hfree : Free [2, 47, 63, 35, 64, 58] (b :: w)) (hhead : (b :: w).head? ≠ some 91)
    (hnext : ∀ t, uriParserScanner.next t 64 = ((hier scheme).afterAt, [saveUserinfo]) →
      uriParserScanner.next t 58 = ((hier scheme).firstPort, [saveHost]) →
        (Leads (before ++ b :: w) t ⟨some before.length, x.uri⟩ (c :: rest) v ↔ P)) :
    Leads before (hier scheme).start x (b :: w ++ c :: rest) v ↔
      b :: w ∈ userinfo.language ∧ P := by
  refine decidesPart_iff [2, 47, 63, 35, 64, 58, 91] [2, 47, 63, 35, 64, 58]
    (hier_checked scheme).name rfl (fun hin => ?_) (free_cons.mp hfree).2 (fun t y h => ?_)
    marks_markH fun _ t ht => ?_
  · rcases List.mem_append.mp (show b ∈ [2, 47, 63, 35, 64, 58] ++ [91] from hin) with hin | hin
    · exact (free_cons.mp hfree).1 hin
    · exact hhead (congrArg some (List.mem_singleton.mp hin))
  · have hzero := (cons.mp h).1
    rcases hc with rfl | rfl <;> simp [hzero]
  · simp only [Bool.and_eq_true, decide_eq_true_eq] at ht
    exact hnext t ht.1 ht.2

/-- The text of a user in front of an at sign, whatever stands behind that.  The text up to the
    first colon has been stored as the host. -/
theorem userinfo_iff {P : Prop} (hfree : Free [47, 63, 35, 64] w) (hhead : w.head? ≠ some 91)
    (hrest : ∀ h, Leads (before ++ w ++ [64]) (hier scheme).afterAt
      ⟨none, { x.uri with userinfo := keptUserinfo w, host := h }⟩ rest v ↔ P) :
    Leads before (hier scheme).start x (w ++ 64 :: rest) v ↔ w ∈ userinfo.language ∧ P := by
  have hc := hier_checked scheme
  have hd := hier_delimiting scheme
  have hzero : (hier scheme).afterAt ≠ 0 := by cases scheme <;> decide
  have hzero' : (hier scheme).firstPort ≠ 0 := by cases scheme <;> decide
  have hmem : Leads before (hier scheme).start x (w ++ 64 :: rest) v → w ∈ userinfo.language := by
    cases w with
    | nil => exact fun _ => Regex.nil_mem_language.mpr rfl
    | cons b w =>
      have hb : b ∉ [47, 63, 35, 64] ++ [91] := fun hin =>
        (List.mem_append.mp hin).elim (free_cons.mp hfree).1 fun h =>
          hhead (congrArg some (List.mem_singleton.mp h))
      exact (part hc.userinfo (testBit_of_not_mem hb)
        (fun c hc => testBit_of_not_mem ((free_cons.mp hfree).2 c hc))
        fun t y h => by simp [(cons.mp h).1]).1
  have hsame : w ∈ userinfo.language →
      (Leads before (hier scheme).start x (w ++ 64 :: rest) v ↔ P) := by
    intro hw
    have htwo : Free [2] w := free_of_letters hw (by decide)
    obtain ⟨a, r, rfl, ha, hr⟩ : ∃ a r, w = a ++ r ∧ Free [58] a ∧ Stops [58] r :=
      ⟨_, _, cutAt_spec [58] w⟩
    cases r with
    | nil =>
      rw [List.append_nil] at *
      rw [keptUserinfo_of_free ha] at hrest
      cases a with
      | nil =>
        have hsave : does (before ++ 64 :: rest) before.length ⟨some before.length, x.uri⟩
            [saveUserinfo] = .ok ⟨none, { x.uri with userinfo := [] }⟩ :=
          does_saveUserinfo [] rfl rfl x.uri
        rw [List.nil_append, cons, hd.start.2.2.1, does_markH, hsave]
        simpa [hzero] using hrest x.uri.host
      | cons b a =>
        have hpart : Leads before (hier scheme).start x (b :: a ++ 64 :: rest) v ↔
            b :: a ∈ userinfo.language ∧ P := by
          refine name_iff (Or.inl rfl) ((htwo.union hfree).union ha) hhead fun t h64 _ => ?_
          rw [cons, h64, does_saveUserinfo (b :: a) (List.append_assoc _ _ _) List.length_append]
          simpa [hzero] using hrest x.uri.host
        rw [hpart, and_iff_right hw]
    | cons c r =>
      obtain rfl := List.mem_singleton.mp (stops_cons.mp hr)
      obtain ⟨ha', hr'⟩ := userinfo_of_append hw
      obtain ⟨hfa, hfr⟩ := free_append.mp hfree
      have hbehind : ∀ h, Leads (before ++ (a ++ [58])) (hier scheme).firstPort
          ⟨some before.length, { x.uri with host := h }⟩ (r ++ 64 :: rest) v ↔ P := by
        intro h
        rw [behindColon_iff ha hr' (free_cons.mp hfr).2]
        exact hrest h
      cases a with
      | nil =>
        have hsave : does (before ++ 58 :: (r ++ 64 :: rest)) before.length
            ⟨some before.length, x.uri⟩ [saveHost] =
              .ok ⟨some before.length, { x.uri with host := [] }⟩ :=
          does_saveHost [] rfl rfl x.uri
        rw [List.nil_append, List.cons_append, cons, hd.start.2.1, does_markH, hsave]
        simpa [hzero'] using hbehind []
      | cons b a =>
        have hpart : Leads before (hier scheme).start x (b :: a ++ 58 :: (r ++ 64 :: rest)) v ↔
            b :: a ∈ userinfo.language ∧ P := by
          refine name_iff (Or.inr rfl) (((free_append.mp htwo).1.union hfa).union ha) hhead
            fun t _ h58 => ?_
          rw [cons, h58, does_saveHost (b :: a) (List.append_assoc _ _ _) List.length_append,
            does_nil]
          simpa [hzero'] using hbehind (b :: a)
        rw [List.append_assoc]
        exact hpart.trans (and_iff_right ha')
  exact ⟨fun h => ⟨hmem h, (hsame (hmem h)).mp h⟩, fun ⟨hw, hP⟩ => (hsame hw).mpr hP⟩

theorem authority_iff {a : UriAuthority} (ha : a.Delimited) (hu : u.Delimited)
    (hstop : Stops [47] u.path) :
    Leads before (hier scheme).start x (a.text ++ (u.path ++ u.tail)) v ↔
      (∀ w ∈ a.userinfo, w ∈ userinfo.language) ∧ a.host ∈ host.language ∧
        u.BehindHost scheme a.port ∧ v = u.storeEnd scheme (a.store x.uri) := by
  have hc := hier_checked scheme
  have hd := hier_delimiting scheme
  have hzero : (hier scheme).port ≠ 0 := by cases scheme <;> decide
  have hzero' : (hier scheme).firstPort ≠ 0 := by cases scheme <;> decide
  have hport : ∀ p ∈ a.port, ReadsPort u scheme (hier scheme).port p := fun p hp before x v =>
    port_iff [47, 63, 35] hu hstop hd.port hc.port (ha.port p hp)
  cases huser : a.userinfo with
  | none =>
    have hhost : ∀ before x v, Leads before (hier scheme).start x
        (a.host ++ (prefixed [58] a.port ++ (u.path ++ u.tail))) v ↔ _ := fun before x v =>
      host_iff [47, 63, 35, 64, 58] hu hstop hd.start.1 hd.start.2.1 hd.start.2.2.2 hc.plainHost
        (fun hhead q hq => ?_) List.mem_cons_self hport ha.host
        (fun hhead => (ha.host.union (ha.noAt huser hhead).1).union (ha.noColon hhead)) ha.literal
    · have htext : a.text = a.host ++ prefixed [58] a.port := by
        simp [UriAuthority.text, suffixed, huser]
      rw [htext, List.append_assoc, hhost]
      simp [UriAuthority.store, huser]
    · rcases List.mem_cons.mp hq with rfl | hq
      · exact ⟨hzero', fun p hp => fun before x v => port_iff [47, 63, 35, 64] hu hstop
          hd.firstPort.1 hc.firstPort ((ha.port p hp).union ((ha.noAt huser hhead).2 p hp))⟩
      · exact List.mem_singleton.mp hq ▸ ⟨hzero, hport⟩
  | some w =>
    have hhost : ∀ before x v, Leads before (hier scheme).afterAt x
        (a.host ++ (prefixed [58] a.port ++ (u.path ++ u.tail))) v ↔ _ := fun before x v =>
      host_iff [47, 63, 35, 58] hu hstop hd.afterAt.1 hd.afterAt.2.1 hd.afterAt.2.2
        hc.plainHostAfterAt
        (fun _ q hq => List.mem_singleton.mp hq ▸ ⟨hzero, hport⟩) (List.mem_singleton_self _) hport
        ha.host (fun hhead => ha.host.union (ha.noColon hhead)) ha.literal
    have htext : a.text ++ (u.path ++ u.tail) =
        w ++ 64 :: (a.host ++ (prefixed [58] a.port ++ (u.path ++ u.tail))) := by
      simp [UriAuthority.text, suffixed, huser]
    obtain ⟨hfree, hhead⟩ := ha.userinfo w huser
    rw [htext]
    simp only [Option.mem_some_iff, forall_eq']
    refine userinfo_iff hfree hhead fun h => ?_
    rw [hhost]
    simp [UriAuthority.store, huser]

end Leads

end CppServerFramework.HTTP

import CppServerFramework.HTTP.UriAuthority

/-!
# What `CreateUri` stores

A text is accepted if each component of its decomposition is of the grammar of `uri.rl`, but for
an empty port behind a colon where there is a scheme, and what is stored is a function of the
components.
-/

namespace CppServerFramework.HTTP
open UriAction UriGrammar UriParsing

variable {before w rest : Bytes} {b : UInt8} {s t p : Nat} {x y : UriParsing} {v : Uri}
  {u : UriParts} {scheme : Bool} {r : Regex}

/-- The components of an authority are of their grammars, with that of the hosts apart. -/
structure UriAuthority.Grammatical (hosts : Regex) (a : UriAuthority) : Prop where
  userinfo : ∀ w ∈ a.userinfo, w ∈ UriGrammar.userinfo.language
  host : a.host ∈ hosts.language
  port : ∀ w ∈ a.port, w ∈ UriGrammar.port.language

namespace UriParts

/-- What a path may be (`uri.rl:119-121`). -/
def pathRule (u : UriParts) : Regex :=
  if u.authority.isSome then pathAbempty
  else Regex.alts [pathAbsolute, if u.scheme.isSome then pathRootless else pathNoscheme, pathEmpty]

/-- Every component is of its grammar (`uri.rl:119-130`). -/
structure Grammatical (hosts : Regex) (u : UriParts) : Prop where
  scheme : ∀ w ∈ u.scheme, w ∈ UriGrammar.scheme.language
  authority : ∀ a ∈ u.authority, a.Grammatical hosts
  path : u.path ∈ u.pathRule.language
  tail : u.TailGrammatical

/-- There is a colon with no port behind it in a URI that has a scheme. -/
def EmptyPort (u : UriParts) : Prop := u.scheme.isSome ∧ ∃ a ∈ u.authority, a.port = some []

/-- What `CreateUri` makes of the components. -/
def stored (u : UriParts) : Uri :=
  let v : Uri := { scheme := u.scheme.getD [] }
  match u.authority with
  | none => u.storeTail v
  | some a => u.storeEnd u.scheme.isSome (a.store v)

end UriParts

/-! ## Paths without an authority -/

theorem eq_of_mem_chr {n : Nat} {c : UInt8} (hc : c.toNat = n)
    (h : inRanges [(n, n)] b = true) : b = c := by
  simp only [inRanges, List.any_cons, List.any_nil, Bool.or_false, Bool.and_eq_true,
    decide_eq_true_eq] at h
  exact UInt8.toNat_inj.mp (by omega)

theorem stops_pathAbempty (h : w ∈ pathAbempty.language) : Stops [47] w := by
  cases w with
  | nil => exact stops_nil
  | cons b w =>
    rw [Regex.cons_mem_language,
      show pathAbempty.factors = [([(47, 47)], Regex.seq segment pathAbempty)] from rfl] at h
    obtain ⟨f, hf, hb, -⟩ := h
    obtain rfl := List.mem_singleton.mp hf
    exact stops_cons.mpr (List.mem_singleton.mpr (eq_of_mem_chr rfl hb))

theorem cons_mem_pathAbsolute : b :: w ∈ pathAbsolute.language ↔
    b = 47 ∧ (w = [] ∨ w ∈ (Regex.seq segmentNz pathAbempty).language) := by
  rw [Regex.cons_mem_language, show pathAbsolute.factors =
    [([(47, 47)], Regex.opt (Regex.seq segmentNz pathAbempty))] from rfl]
  constructor
  · rintro ⟨f, hf, hb, hw⟩
    obtain rfl := List.mem_singleton.mp hf
    exact ⟨eq_of_mem_chr rfl hb, hw⟩
  · rintro ⟨rfl, hw⟩
    exact ⟨_, List.mem_singleton_self _, by decide, hw⟩

theorem cons_mem_alts : b :: w ∈ (Regex.alts [pathAbsolute, r, pathEmpty]).language ↔
    (b = 47 ∧ (w = [] ∨ w ∈ (Regex.seq segmentNz pathAbempty).language)) ∨
      b :: w ∈ r.language := by
  rw [← cons_mem_pathAbsolute]
  constructor
  · rintro (h | h | h)
    · exact Or.inl h
    · exact Or.inr h
    · cases h
  · rintro (h | h)
    · exact Or.inl h
    · exact Or.inr (Or.inl h)

/-- A segment that does not end at once is not empty. -/
theorem cons_mem_segmentNz (hb : b ≠ 47) :
    b :: w ∈ (Regex.seq segmentNz pathAbempty).language ↔
      b :: w ∈ (Regex.seq segment pathAbempty).language := by
  have hsegment : segment.language = 1 + segmentNz.language :=
    (Language.one_add_self_mul_kstar_eq_kstar pchar.language).symm
  rw [Regex.language, Regex.language, hsegment, add_mul, one_mul, Language.mem_add, or_iff_right]
  exact fun h => hb (List.mem_singleton.mp (stops_cons.mp (stops_pathAbempty h)))

theorem mem_pathNoscheme (hw : Free [47] w) (hrest : Stops [47] rest) :
    w ++ rest ∈ pathNoscheme.language ↔ w ∈ segmentNzNc.language ∧ rest ∈ pathAbempty.language := by
  constructor
  · rintro ⟨a, ha, c, hc, heq⟩
    obtain ⟨rfl, rfl⟩ := append_inj_of_stops heq (free_of_letters ha (by decide)) hw
      (stops_pathAbempty hc) hrest
    exact ⟨ha, hc⟩
  · rintro ⟨ha, hc⟩
    exact ⟨w, ha, rest, hc, rfl⟩

/-- A path whose first segment is not empty does not begin with a slash. -/
theorem slash_not_mem (hnil : r.nullable = false) (h47 : inRanges r.letters 47 = false) :
    47 :: w ∉ (Regex.seq r pathAbempty).language := by
  rintro ⟨a, ha, c, -, heq⟩
  cases a with
  | nil =>
    have := Regex.nil_mem_language.mp ha
    rw [hnil] at this
    cases this
  | cons b a =>
    obtain ⟨rfl, -⟩ := List.cons.inj heq
    have := Regex.inRanges_letters ha List.mem_cons_self
    rw [h47] at this
    cases this

/-! ## Delimiters -/

/-- A host is a literal in brackets, or has no byte that would end it or the text of a user. -/
def HostLike (w : Bytes) : Prop :=
  (∃ i, w = 91 :: (i ++ [93]) ∧ Free [93, 47, 63, 35] i) ∨ Free [91, 58, 64, 47, 63, 35] w

theorem hostLike_of_mem (h : w ∈ host.language) : HostLike w := by
  rcases mem_host.mp h with ⟨i, hi, rfl⟩ | h
  · exact Or.inl ⟨i, rfl, free_of_letters hi (by decide +kernel)⟩
  · exact Or.inr (free_of_letters h (by decide +kernel))

theorem UriAuthority.Grammatical.delimited {a : UriAuthority} (h : a.Grammatical r)
    (hlike : ∀ w ∈ r.language, HostLike w) : a.Delimited := by
  have hport : ∀ w ∈ a.port, Free [47, 63, 35, 64] w := fun w hw =>
    free_of_letters (h.port w hw) (by decide)
  have huser : ∀ w ∈ a.userinfo, Free [47, 63, 35, 64, 91] w := fun w hw =>
    free_of_letters (h.userinfo w hw) (by decide)
  refine ⟨fun w hw => ⟨(huser w hw).mono (by decide), ?_⟩, ?_,
    fun w hw => (hport w hw).mono (by decide), ?_, ?_, ?_⟩
  · intro hhead
    exact huser w hw 91 (List.mem_of_mem_head? hhead) (by decide)
  · rcases hlike _ h.host with ⟨i, heq, hi⟩ | hfree
    · rw [heq]
      refine free_cons.mpr ⟨by decide, free_append.mpr ⟨hi.mono (by decide), ?_⟩⟩
      exact free_cons.mpr ⟨by decide, free_nil⟩
    · exact hfree.mono (by decide)
  · intro _ hhead
    rcases hlike _ h.host with ⟨i, heq, -⟩ | hfree
    · exact absurd (by rw [heq]; rfl) hhead
    · exact ⟨hfree.mono (by decide), fun w hw => (hport w hw).mono (by decide)⟩
  · intro hhead
    rcases hlike _ h.host with ⟨i, heq, -⟩ | hfree
    · exact absurd (by rw [heq]; rfl) hhead
    · exact hfree.mono (by decide)
  · intro x hx
    rcases hlike _ h.host with ⟨i, heq, hi⟩ | hfree
    · rw [heq] at hx
      exact Or.inr ⟨i, [], (List.cons.inj hx).2.symm, hi.mono (by decide), free_nil⟩
    · exact absurd (by decide) (hfree 91 (hx ▸ List.mem_cons_self))

theorem UriParts.Grammatical.delimited (h : u.Grammatical r)
    (hlike : ∀ w ∈ r.language, HostLike w) : u.Delimited := by
  have hpath := h.path
  refine ⟨fun w hw => free_of_letters (h.scheme w hw) (by decide),
    fun a ha => (h.authority a ha).delimited hlike, ?_, fun hauth => ?_, fun hauth w hw => ?_,
    fun hscheme hauth => ?_, fun w hw => free_of_letters (h.tail.1 w hw) (by decide)⟩
  · refine free_of_letters hpath ?_
    rw [UriParts.pathRule]
    cases u.authority.isSome <;> cases u.scheme.isSome <;> decide
  · rw [UriParts.pathRule, Option.isSome_iff_ne_none.mpr hauth] at hpath
    exact stops_pathAbempty hpath
  · rw [UriParts.pathRule, hauth, hw] at hpath
    rcases cons_mem_alts.mp hpath with ⟨-, hnil | hmem⟩ | hmem
    · cases hnil
    · exact slash_not_mem rfl (by decide) hmem
    · revert hmem
      cases u.scheme.isSome
      · exact slash_not_mem rfl (by decide)
      · exact slash_not_mem rfl (by decide)
  · rw [UriParts.pathRule, hauth, hscheme] at hpath
    cases hp : u.path with
    | nil => exact stops_nil
    | cons b w =>
      rw [hp] at hpath
      rcases cons_mem_alts.mp hpath with ⟨rfl, -⟩ | ⟨a, ha, c, hc, heq⟩
      · exact stops_cons.mpr (by decide)
      · have hstop := stops_pathAbempty hc
        have hcut : cutAt [58, 47] (b :: w) = (a, c) :=
          cutAt_eq.mpr ⟨heq.symm, free_of_letters ha (by decide),
            fun d hd => List.mem_cons_of_mem _ (hstop d hd)⟩
        rw [hcut]
        exact hstop

/-! ## The run -/

namespace Leads

/-- A path from a state in which a slash does not lead to an authority. -/
theorem quietPath_iff (es : List UInt8) (hu : u.Delimited) (hw : Free [63, 35] w)
    (hend : endsWith s [] = true) (hb : ∀ b ∈ w.head?, b ∉ es)
    (hdec : decidesPath s 455 (es.map UInt8.toNat) = true) :
    Leads before s x (w ++ u.tail) v ↔
      w ∈ (Regex.seq segment pathAbempty).language ∧ u.TailGrammatical ∧
        v = u.storeTail x.uri := by
  cases w with
  | nil => simpa [nil_mem_path, does_nil] using tail_iff hend hu
  | cons b w =>
    rw [path_iff es hdec (show endsWith 455 [] = true by decide) hu (hb b rfl) (free_cons.mp hw).2]
    simp [does_nil]

theorem slash_iff (hu : u.Delimited) (hw : Free [63, 35] w) (hhead : w.head? ≠ some 47) :
    Leads before (hier scheme).slash x (w ++ u.tail) v ↔
      (w = [] ∨ w ∈ (Regex.seq segmentNz pathAbempty).language) ∧ u.TailGrammatical ∧
        v = u.storeTail x.uri := by
  have hfirst : ∀ b ∈ w.head?, b ∉ ([47, 63, 35] : List UInt8) := by
    intro b hb hin
    rcases List.mem_cons.mp hin with rfl | hin
    · exact hhead hb
    · exact hw b (List.mem_of_mem_head? hb) hin
  rw [quietPath_iff [47, 63, 35] hu hw (hier_delimiting scheme).slash.1 hfirst
    (hier_checked scheme).slash]
  refine and_congr_left fun _ => ?_
  cases w with
  | nil => simp [nil_mem_path]
  | cons b w =>
    rw [cons_mem_segmentNz (by simpa using hhead)]
    simp

/-- Actions that set the mark only. -/
theorem acts_markU (text : Bytes) {events : List (Nat × UriAction)}
    (h : ∀ e ∈ events, e.2 = markU) : ∃ y, x.acts text events = .ok y ∧ y.uri = x.uri := by
  induction events generalizing x with
  | nil => exact ⟨x, rfl, rfl⟩
  | cons e events ih =>
    rw [List.forall_mem_cons] at h
    obtain ⟨y, hy, huri⟩ := ih (x := ⟨some e.1, x.uri⟩) h.2
    refine ⟨y, ?_, huri⟩
    obtain ⟨p, a⟩ := e
    obtain rfl : a = markU := h.1
    exact hy

/-- The first segment of a relative reference, where a scheme might have begun. -/
theorem segment_iff (hu : u.Delimited) (hw : Free [58, 47, 63, 35] (b :: w))
    (hrest : Stops [47] rest) (hfree : Free [63, 35] rest) :
    Leads before 451 x (b :: w ++ (rest ++ u.tail)) v ↔ b :: w ++ rest ∈ pathNoscheme.language ∧
      u.TailGrammatical ∧ v = u.storeTail x.uri := by
  have hstop := u.path_stops hrest
  have hmay : ∀ t y, Leads (before ++ b :: w) t y (rest ++ u.tail) v → UriGrammar.ends t = true :=
    fun t y h => h.ends hstop
  obtain ⟨hmem, hread⟩ := part (x := x) decides_parts.2.1 (testBit_of_not_mem (free_cons.mp hw).1)
    (fun c hc => testBit_of_not_mem ((free_cons.mp hw).2 c hc)) hmay
  have hsame : b :: w ∈ segmentNzNc.language → (Leads before 451 x (b :: w ++ (rest ++ u.tail)) v ↔
      rest ∈ pathAbempty.language ∧ u.TailGrammatical ∧ v = u.storeTail x.uri) := by
    intro hr
    obtain ⟨hfirst, t, events, ht, hquiet, hl⟩ := hread hr
    have hfirst : ∀ e ∈ (uriParserScanner.next 451 b).2.map fun a => (before.length, a),
        e.2 = markU := by
      intro e he
      obtain ⟨a, ha, rfl⟩ := List.mem_map.mp he
      exact of_decide_eq_true (List.all_eq_true.mp hfirst a ha)
    obtain ⟨y, hy, hyuri⟩ := acts_markU (before ++ (b :: w ++ (rest ++ u.tail))) hfirst
    obtain ⟨z, hz, hzuri⟩ := acts_markU (x := y) (before ++ (b :: w ++ (rest ++ u.tail)))
      fun e he => of_decide_eq_true (hquiet e he)
    have habempty : ∀ z, Leads (before ++ b :: w) t z (rest ++ u.tail) v ↔
        rest ∈ pathAbempty.language ∧ u.TailGrammatical ∧ v = u.storeTail z.uri := by
      intro z
      rw [abempty_iff (hier_checked false) (hier_delimiting false) hu
        (show (hier false).leaves t [] = true from ht) hrest hfree]
      simp [does_nil, hier, relative]
    rw [hl, does, hy]
    simp only [Except.ok.injEq, exists_eq_left', hz, habempty, hzuri, hyuri]
  have hw47 : Free [47] (b :: w) := hw.mono (by decide)
  rw [mem_pathNoscheme hw47 hrest, and_assoc]
  exact ⟨fun h => ⟨hmem h, (hsame (hmem h)).mp h⟩, fun h => (hsame h.1).mpr h.2⟩

/-- A path where there is no authority. -/
theorem noAuthority_iff (hu : u.Delimited) (hauth : u.authority = none) :
    Leads before (hier u.scheme.isSome).root x (u.path ++ u.tail) v ↔
      u.path ∈ u.pathRule.language ∧ u.TailGrammatical ∧ v = u.storeTail x.uri := by
  have hd := hier_delimiting u.scheme.isSome
  have hrule : u.pathRule = Regex.alts
      [pathAbsolute, if u.scheme.isSome then pathRootless else pathNoscheme, pathEmpty] := by
    rw [UriParts.pathRule, hauth]
    rfl
  have hno := hu.noAuthority hauth
  have hfree := hu.path
  have hcolon := fun h => hu.noScheme h hauth
  rw [hrule]
  generalize u.path = path at *
  cases path with
  | nil =>
    have hnil : [] ∈ (Regex.alts [pathAbsolute, if u.scheme.isSome then pathRootless
        else pathNoscheme, pathEmpty]).language := Or.inr (Or.inr rfl)
    rw [List.nil_append, tail_iff hd.root.1 hu]
    simp [hnil, does_nil]
  | cons b w =>
    obtain ⟨hb, hw⟩ := free_cons.mp hfree
    rw [cons_mem_alts]
    by_cases hslash : b = 47
    · subst hslash
      have hzero : (hier u.scheme.isSome).slash ≠ 0 := by cases u.scheme.isSome <;> decide
      have hhead : w.head? ≠ some 47 := by
        intro h
        cases w with
        | nil => cases h
        | cons c w =>
          cases h
          exact hno w rfl
      have hrule : 47 :: w ∉
          (if u.scheme.isSome then pathRootless else pathNoscheme).language := by
        cases u.scheme.isSome
        · exact slash_not_mem rfl (by decide)
        · exact slash_not_mem rfl (by decide)
      rw [List.cons_append, cons, hd.root.2]
      simp only [does_nil, Except.ok.injEq, exists_eq_left', slash_iff hu hw hhead]
      simp [hzero, hrule]
    · cases hscheme : u.scheme with
      | some a =>
        have hfirst : ∀ c ∈ (b :: w).head?, c ∉ ([47, 63, 35] : List UInt8) := by
          rintro c ⟨⟩ hin
          exact (List.mem_cons.mp hin).elim hslash hb
        have hpath : Leads before 509 x (b :: w ++ u.tail) v ↔ _ :=
          quietPath_iff [47, 63, 35] hu hfree (by decide) hfirst decides_parts.2.2.2.1
        rw [← cons_mem_segmentNz hslash] at hpath
        simpa [hslash, pathRootless, hier, absolute] using hpath
      | none =>
        obtain ⟨heq, hseg, -⟩ := cutAt_spec [58, 47] (b :: w)
        have hrest := hcolon hscheme
        generalize cutAt [58, 47] (b :: w) = c at *
        obtain ⟨seg, rest⟩ := c
        simp only at heq hseg hrest
        cases seg with
        | nil =>
          rw [List.nil_append] at heq
          rw [← heq] at hrest
          exact absurd (List.mem_singleton.mp (stops_cons.mp hrest)) hslash
        | cons c seg =>
          rw [heq] at hfree ⊢
          obtain ⟨hfseg, hfrest⟩ := free_append.mp hfree
          obtain ⟨rfl, -⟩ := List.cons.inj heq
          have hsegment : Leads before 451 x (b :: seg ++ (rest ++ u.tail)) v ↔ _ :=
            segment_iff hu (hseg.union hfseg) hrest hfrest
          simpa [hslash, hier, relative] using hsegment

theorem hier_iff (hu : u.Delimited) :
    Leads before (hier u.scheme.isSome).root x (u.hier ++ u.tail) v ↔
      ((∀ a ∈ u.authority, a.Grammatical host) ∧ u.path ∈ u.pathRule.language ∧ u.TailGrammatical) ∧
        ¬ u.EmptyPort ∧ v = (match u.authority with
          | none => u.storeTail x.uri
          | some a => u.storeEnd u.scheme.isSome (a.store x.uri)) := by
  have hd := hier_delimiting u.scheme.isSome
  cases hauth : u.authority with
  | none =>
    have hhier : u.hier = u.path := by simp [UriParts.hier, hauth]
    rw [hhier, noAuthority_iff hu hauth]
    simp [UriParts.EmptyPort, hauth, and_assoc]
  | some a =>
    have hzero : (hier u.scheme.isSome).slash ≠ 0 := by cases u.scheme.isSome <;> decide
    have hzero' : (hier u.scheme.isSome).start ≠ 0 := by cases u.scheme.isSome <;> decide
    have hhier : u.hier ++ u.tail = 47 :: 47 :: (a.text ++ (u.path ++ u.tail)) := by
      simp [UriParts.hier, hauth]
    have hrule : u.pathRule = pathAbempty := by
      rw [UriParts.pathRule, hauth]
      rfl
    rw [hhier, cons, hd.root.2]
    simp only [does_nil, Except.ok.injEq, exists_eq_left']
    rw [cons, hd.slash.2]
    simp only [does_nil, Except.ok.injEq, exists_eq_left',
      authority_iff (hu.authority a hauth) hu (hu.slash (by simp [hauth])), hrule]
    constructor
    · rintro ⟨-, -, huser, hhost, ⟨hport, hpath, htail, hno⟩, hv⟩
      refine ⟨⟨?_, hpath, htail⟩, ?_, hv⟩
      · rintro a ⟨⟩
        exact ⟨huser, hhost, hport⟩
      · rintro ⟨hscheme, a', ha', hempty⟩
        rw [hauth] at ha'
        cases ha'
        exact hno hscheme hempty
    · rintro ⟨⟨hall, hpath, htail⟩, hno, hv⟩
      obtain ⟨huser, hhost, hport⟩ := hall a rfl
      exact ⟨hzero, hzero', huser, hhost,
        ⟨hport, hpath, htail, fun hscheme hempty => hno ⟨hscheme, a, hauth, hempty⟩⟩, hv⟩

theorem text_iff (hu : u.Delimited) :
    Leads [] 451 ⟨none, {}⟩ u.text v ↔ u.Grammatical host ∧ ¬ u.EmptyPort ∧ v = u.stored := by
  have hgrammatical : u.Grammatical host ↔ (∀ w ∈ u.scheme, w ∈ UriGrammar.scheme.language) ∧
      (∀ a ∈ u.authority, a.Grammatical host) ∧ u.path ∈ u.pathRule.language ∧ u.TailGrammatical :=
    ⟨fun ⟨h1, h2, h3, h4⟩ => ⟨h1, h2, h3, h4⟩, fun ⟨h1, h2, h3, h4⟩ => ⟨h1, h2, h3, h4⟩⟩
  have hhier : Leads (suffixed [58] u.scheme) (hier u.scheme.isSome).root
      ⟨none, { scheme := u.scheme.getD [] }⟩ (u.hier ++ u.tail) v ↔ _ := hier_iff hu
  rw [hgrammatical, and_assoc]
  cases hscheme : u.scheme with
  | none =>
    rw [hscheme] at hhier
    have htext : u.text = u.hier ++ u.tail := by simp [UriParts.text, suffixed, hscheme]
    rw [htext]
    refine hhier.trans ?_
    simp [UriParts.stored, hscheme]
  | some a =>
    have htext : u.text = a ++ 58 :: (u.hier ++ u.tail) := by
      simp [UriParts.text, suffixed, hscheme]
    have hfree := hu.scheme a hscheme
    rw [hscheme] at hhier
    rw [htext]
    cases a with
    | nil =>
      refine iff_of_false (fun h => (cons.mp h).1 (by decide)) fun h => ?_
      exact absurd (Regex.nil_mem_language.mp (h.1 [] rfl)) (by decide)
    | cons b a =>
      have hpart : Leads [] 451 ⟨none, {}⟩ (b :: a ++ 58 :: (u.hier ++ u.tail)) v ↔
          b :: a ∈ UriGrammar.scheme.language ∧
            Leads (b :: a ++ [58]) 509 ⟨none, { scheme := b :: a }⟩ (u.hier ++ u.tail) v := by
        refine decidesPart_iff [58, 47, 63, 35] [58, 47, 63, 35] decides_parts.1 rfl
          (free_cons.mp hfree).1 (free_cons.mp hfree).2 (fun t y h => by simp [(cons.mp h).1])
          marks_markU fun _ t ht => ?_
        rw [of_decide_eq_true ht, cons,
          show uriParserScanner.next 508 58 = (509, [saveScheme]) by decide,
          does_saveScheme (b :: a) (List.append_assoc _ _ _) List.length_append]
        simp
      rw [hpart]
      refine and_congr (by simp) (hhier.trans ?_)
      simp [UriParts.stored, hscheme]

end Leads

/-- What `CreateUri` accepts, and what it stores. -/
theorem createUri_text (hu : u.Delimited) :
    Uri.createUri u.text = .ok (some v) ↔ u.Grammatical host ∧ ¬ u.EmptyPort ∧ v = u.stored :=
  createUri_eq_some.trans (Leads.text_iff hu)

theorem createUri_iff {text : Bytes} : Uri.createUri text = .ok (some v) ↔
    (UriParts.split text).Grammatical host ∧ ¬ (UriParts.split text).EmptyPort ∧
      v = (UriParts.split text).stored := by
  have h := createUri_text (v := v) (UriParts.split_delimited text)
  rwa [UriParts.text_split] at h

end CppServerFramework.HTTP

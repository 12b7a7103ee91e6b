import CppServerFramework.HTTP.IpLiteral

/-!
# URI references

The language of URI references, with the rule for hosts apart: that of RFC 3986 or that of
`uri.rl`.  A text is in it if the components of its decomposition are of their rules, and so what
`CreateUri` accepts is compared with the language host by host.
-/

namespace CppServerFramework.HTTP
open UriGrammar

variable {w text : Bytes} {r hosts : Regex} {u : UriParts}

namespace UriGrammar
open Regex

def authority (hosts : Regex) : Regex :=
  seqs [opt (seq userinfo (chr 64)), hosts, opt (seq (chr 58) port)]

/-- What stands in front of a query, where `path` is the rule for a path without an authority that
    does not begin with a slash. -/
def hierPart (hosts path : Regex) : Regex :=
  alt (seqs [chr 47, chr 47, authority hosts, pathAbempty]) (alts [pathAbsolute, path, pathEmpty])

def tail : Regex := seq (opt (seq (chr 63) query)) (opt (seq (chr 35) fragment))

def relativeRef (hosts : Regex) : Regex := seq (hierPart hosts pathNoscheme) tail

def uri (hosts : Regex) : Regex := seqs [scheme, chr 58, hierPart hosts pathRootless, tail]

def uriReference (hosts : Regex) : Regex := alt (uri hosts) (relativeRef hosts)

end UriGrammar

/-! ## Components -/

theorem exists_component {P : Bytes → Prop} (f : Option Bytes → Bytes) (w : Bytes) :
    (w = f none ∨ ∃ x, P x ∧ f (some x) = w) ↔ ∃ o : Option Bytes, (∀ x ∈ o, P x) ∧ w = f o := by
  constructor
  · rintro (hw | ⟨x, hx, hw⟩)
    · exact ⟨none, nofun, hw⟩
    · exact ⟨some x, fun y hy => Option.some.inj hy ▸ hx, hw.symm⟩
  · rintro ⟨o, ho, hw⟩
    cases o with
    | none => exact Or.inl hw
    | some x => exact Or.inr ⟨x, ho x rfl, hw.symm⟩

theorem mem_prefixed {n : Nat} {c : UInt8} (hc : c.toNat = n) :
    w ∈ (Regex.opt (.seq (.chr n) r)).language ↔
      ∃ o : Option Bytes, (∀ x ∈ o, x ∈ r.language) ∧ w = prefixed [c] o := by
  change w ∈ 1 + (Regex.chr n).language * r.language ↔ _
  rw [Language.mem_add, Language.mem_one, Language.mem_mul]
  simp only [mem_chr hc, exists_eq_left, List.singleton_append]
  exact exists_component (prefixed [c]) w

theorem mem_suffixed {n : Nat} {c : UInt8} (hc : c.toNat = n) :
    w ∈ (Regex.opt (.seq r (.chr n))).language ↔
      ∃ o : Option Bytes, (∀ x ∈ o, x ∈ r.language) ∧ w = suffixed [c] o := by
  change w ∈ 1 + r.language * (Regex.chr n).language ↔ _
  rw [Language.mem_add, Language.mem_one, Language.mem_mul]
  simp only [mem_chr hc, exists_eq_left]
  exact exists_component (suffixed [c]) w

theorem mem_authority : w ∈ (authority hosts).language ↔
    ∃ a : UriAuthority, a.Grammatical hosts ∧ w = a.text := by
  change w ∈ (Regex.opt (.seq userinfo (.chr 64))).language *
    (hosts.language * (Regex.opt (.seq (.chr 58) UriGrammar.port)).language) ↔ _
  simp only [Language.mem_mul, mem_suffixed (show (64 : UInt8).toNat = 64 from rfl),
    mem_prefixed (show (58 : UInt8).toNat = 58 from rfl)]
  constructor
  · rintro ⟨_, ⟨user, huser, rfl⟩, _, ⟨host, hhost, _, ⟨port, hport, rfl⟩, rfl⟩, rfl⟩
    exact ⟨⟨user, host, port⟩, ⟨huser, hhost, hport⟩, by simp [UriAuthority.text]⟩
  · rintro ⟨⟨user, host, port⟩, ⟨huser, hhost, hport⟩, rfl⟩
    exact ⟨_, ⟨user, huser, rfl⟩, _, ⟨host, hhost, _, ⟨port, hport, rfl⟩, rfl⟩,
      by simp [UriAuthority.text]⟩

theorem mem_tail : w ∈ tail.language ↔
    ∃ q f : Option Bytes, ((∀ x ∈ q, x ∈ query.language) ∧ ∀ x ∈ f, x ∈ fragment.language) ∧
      w = prefixed [63] q ++ prefixed [35] f := by
  rw [tail, Regex.language, Language.mem_mul]
  simp only [mem_prefixed (show (63 : UInt8).toNat = 63 from rfl),
    mem_prefixed (show (35 : UInt8).toNat = 35 from rfl)]
  constructor
  · rintro ⟨_, ⟨q, hq, rfl⟩, _, ⟨f, hf, rfl⟩, rfl⟩
    exact ⟨q, f, ⟨hq, hf⟩, rfl⟩
  · rintro ⟨q, f, ⟨hq, hf⟩, rfl⟩
    exact ⟨_, ⟨q, hq, rfl⟩, _, ⟨f, hf, rfl⟩, rfl⟩

theorem mem_hierPart {path : Regex} : w ∈ (hierPart hosts path).language ↔
    ∃ (a : Option UriAuthority) (p : Bytes), (∀ x ∈ a, x.Grammatical hosts) ∧
      p ∈ (if a.isSome then pathAbempty
        else Regex.alts [pathAbsolute, path, pathEmpty]).language ∧
      w = (UriParts.mk none a p none none).hier := by
  have h47 : ∀ x : Bytes, x ∈ (Regex.chr 47).language ↔ x = [47] := fun x => mem_chr rfl
  change w ∈ (Regex.chr 47).language * ((Regex.chr 47).language * ((authority hosts).language *
    pathAbempty.language)) + (Regex.alts [pathAbsolute, path, pathEmpty]).language ↔ _
  rw [Language.mem_add]
  simp only [Language.mem_mul, h47, exists_eq_left, mem_authority]
  constructor
  · rintro (⟨_, ⟨_, ⟨_, ⟨a, ha, rfl⟩, p, hp, rfl⟩, rfl⟩, rfl⟩ | hp)
    · exact ⟨some a, p, by simpa using ha, hp, by simp [UriParts.hier]⟩
    · exact ⟨none, w, by simp, hp, rfl⟩
  · rintro ⟨a, p, ha, hp, rfl⟩
    cases a with
    | none => exact Or.inr hp
    | some a =>
      exact Or.inl ⟨_, ⟨_, ⟨_, ⟨a, ha a rfl, rfl⟩, p, hp, rfl⟩, rfl⟩, by simp [UriParts.hier]⟩

theorem mem_uri : w ∈ (uri hosts).language ↔
    ∃ s ∈ scheme.language, ∃ h ∈ (hierPart hosts pathRootless).language, ∃ t ∈ tail.language,
      w = s ++ 58 :: (h ++ t) := by
  have h58 : ∀ x : Bytes, x ∈ (Regex.chr 58).language ↔ x = [58] := fun x => mem_chr rfl
  change w ∈ scheme.language * ((Regex.chr 58).language *
    ((hierPart hosts pathRootless).language * tail.language)) ↔ _
  simp only [Language.mem_mul, h58, exists_eq_left]
  constructor
  · rintro ⟨s, hs, _, ⟨_, ⟨h, hh, t, ht, rfl⟩, rfl⟩, rfl⟩
    exact ⟨s, hs, h, hh, t, ht, rfl⟩
  · rintro ⟨s, hs, h, hh, t, ht, rfl⟩
    exact ⟨s, hs, _, ⟨_, ⟨h, hh, t, ht, rfl⟩, rfl⟩, rfl⟩

/-- A reference is written of components of their rules. -/
theorem mem_uriReference : text ∈ (uriReference hosts).language ↔
    ∃ u : UriParts, u.Grammatical hosts ∧ text = u.text := by
  rw [uriReference, Regex.language, Language.mem_add, mem_uri]
  constructor
  · rintro (⟨s, hs, h, hh, t, ht, rfl⟩ | ⟨h, hh, t, ht, rfl⟩)
    · obtain ⟨a, p, ha, hp, rfl⟩ := mem_hierPart.mp hh
      obtain ⟨q, f, htail, rfl⟩ := mem_tail.mp ht
      refine ⟨⟨some s, a, p, q, f⟩, ⟨by simpa using hs, ha, hp, htail⟩, ?_⟩
      simp [UriParts.text, UriParts.hier, UriParts.tail, suffixed]
    · obtain ⟨a, p, ha, hp, rfl⟩ := mem_hierPart.mp hh
      obtain ⟨q, f, htail, rfl⟩ := mem_tail.mp ht
      exact ⟨⟨none, a, p, q, f⟩, ⟨by simp, ha, hp, htail⟩, rfl⟩
  · rintro ⟨⟨s, a, p, q, f⟩, ⟨hs, ha, hp, htail⟩, rfl⟩
    have ht : prefixed [63] q ++ prefixed [35] f ∈ tail.language := mem_tail.mpr ⟨q, f, htail, rfl⟩
    cases s with
    | none => exact Or.inr ⟨_, mem_hierPart.mpr ⟨a, p, ha, hp, rfl⟩, _, ht, rfl⟩
    | some s =>
      refine Or.inl ⟨s, hs s rfl, _, mem_hierPart.mpr ⟨a, p, ha, hp, rfl⟩, _, ht, ?_⟩
      simp [UriParts.text, UriParts.hier, UriParts.tail, suffixed]

/-- The components of a reference are those of its decomposition. -/
theorem mem_uriReference_iff (hlike : ∀ w ∈ hosts.language, HostLike w) :
    text ∈ (uriReference hosts).language ↔ (UriParts.split text).Grammatical hosts := by
  rw [mem_uriReference]
  constructor
  · rintro ⟨u, hu, rfl⟩
    rwa [UriParts.split_text (hu.delimited hlike)]
  · exact fun h => ⟨_, h, (UriParts.text_split text).symm⟩

/-! ## What is accepted -/

theorem hostLike_of_mem_rfc (h : w ∈ Rfc3986.host.language) : HostLike w := by
  rcases mem_bracketed.mp h with ⟨i, hi, rfl⟩ | h
  · exact Or.inl ⟨i, rfl, free_of_letters hi (by decide +kernel)⟩
  · exact Or.inr (free_of_letters h (by decide +kernel))

/-- What the scanner accepts is the language of `uri.rl`, but for empty ports. -/
theorem createUri_accepts : (∃ v, Uri.createUri text = .ok (some v)) ↔
    text ∈ (uriReference UriGrammar.host).language ∧ ¬ (UriParts.split text).EmptyPort := by
  rw [mem_uriReference_iff fun w => hostLike_of_mem]
  simp only [createUri_iff]
  constructor
  · rintro ⟨v, hgram, hempty, -⟩
    exact ⟨hgram, hempty⟩
  · exact fun ⟨hgram, hempty⟩ => ⟨_, hgram, hempty, rfl⟩

namespace UriParts

/-- Only the hosts have to be of a rule of their own. -/
theorem Grammatical.of_host (h : u.Grammatical r)
    (hhost : ∀ a ∈ u.authority, a.host ∈ hosts.language) : u.Grammatical hosts := by
  obtain ⟨hscheme, hauth, hpath, htail⟩ := h
  exact ⟨hscheme, fun a ha => ⟨(hauth a ha).userinfo, hhost a ha, (hauth a ha).port⟩, hpath, htail⟩

/-- References that are rejected, for an empty port behind a scheme or for their host, and texts
    that are accepted with the byte 2 in an address. -/
inductive Misread (u : UriParts) : Prop
  | emptyPort : u.Grammatical Rfc3986.host → u.EmptyPort → Misread u
  | unread (a : UriAuthority) :
    u.Grammatical Rfc3986.host → a ∈ u.authority → Unread a.host → Misread u
  | numeral (a : UriAuthority) :
    u.Grammatical UriGrammar.host → ¬ u.EmptyPort → a ∈ u.authority → 2 ∈ a.host → Misread u

end UriParts

namespace Uri

theorem acceptsReferences_iff :
    ((∃ v, createUri text = .ok (some v)) ↔ text ∈ (uriReference Rfc3986.host).language) ↔
      ¬ (UriParts.split text).Misread := by
  rw [createUri_accepts, mem_uriReference_iff fun w => hostLike_of_mem,
    mem_uriReference_iff fun w => hostLike_of_mem_rfc]
  generalize UriParts.split text = u
  have htwo : u.Grammatical Rfc3986.host → ∀ a ∈ u.authority, 2 ∉ a.host := by
    intro h a ha
    have hfree : Free [2] a.host := free_of_letters (h.authority a ha).host (by decide +kernel)
    exact hfree.not_mem (by decide)
  constructor
  · rintro hiff (⟨hrfc, hempty⟩ | ⟨a, hrfc, ha, hun⟩ | ⟨a, hgram, hempty, ha, h2⟩)
    · exact (hiff.mpr hrfc).2 hempty
    · have hhost := ((hiff.mpr hrfc).1.authority a ha).host
      exact (rfcHost_iff.mpr ⟨hhost, htwo hrfc a ha⟩).2 hun
    · exact htwo (hiff.mp ⟨hgram, hempty⟩) a ha h2
  · intro hread
    constructor
    · rintro ⟨hgram, hempty⟩
      refine hgram.of_host fun a ha => (rfcHost_iff.mpr ⟨(hgram.authority a ha).host, ?_⟩).1
      exact fun h2 => hread (.numeral a hgram hempty ha h2)
    · intro hrfc
      refine ⟨hrfc.of_host fun a ha => (rfcHost_iff.mp ⟨(hrfc.authority a ha).host, ?_⟩).1, ?_⟩
      · exact fun hun => hread (.unread a hrfc ha hun)
      · exact fun hempty => hread (.emptyPort hrfc hempty)

/-- Fewer groups than there may be in front of `::`. -/
theorem acceptsReferences_not : ascii "http://[1::2]/" ∈ (uriReference Rfc3986.host).language ∧
    ¬ ∃ v, createUri (ascii "http://[1::2]/") = .ok (some v) := by
  refine ⟨Regex.accepts_iff.mp (by decide), ?_⟩
  rintro ⟨v, hv⟩
  have hnone : createUri (ascii "http://[1::2]/") = .ok none := rfl
  rw [hnone] at hv
  cases hv

end Uri

end CppServerFramework.HTTP

import CppServerFramework.HTTP.Http

/-!
# The components of a reference

RFC 3986 composes a reference of its components, and takes any text apart at the delimiters.  What
comes of it is the one decomposition in which no component contains a delimiter that would end it.
-/

namespace CppServerFramework.HTTP

/-- The text has none of the bytes. -/
def Free (ds : List UInt8) (w : Bytes) : Prop := ∀ b ∈ w, b ∉ ds

/-- The text is empty or begins with one of the bytes. -/
def Stops (ds : List UInt8) (w : Bytes) : Prop := ∀ b ∈ w.head?, b ∈ ds

/-- The text up to the first of some bytes, and the rest. -/
def cutAt (ds : List UInt8) (s : Bytes) : Bytes × Bytes :=
  (s.takeWhile (· ∉ ds), s.dropWhile (· ∉ ds))

variable {ds es : List UInt8} {s w v rest : Bytes}

theorem free_append : Free ds (w ++ v) ↔ Free ds w ∧ Free ds v := List.forall_mem_append

theorem free_cons {b : UInt8} : Free ds (b :: w) ↔ b ∉ ds ∧ Free ds w := List.forall_mem_cons

theorem free_nil : Free ds [] := fun _ h => (by cases h)

theorem Free.mono (h : Free ds w) (hsub : es ⊆ ds) : Free es w := fun b hb he => h b hb (hsub he)

theorem Free.not_mem {b : UInt8} (h : Free ds w) (hb : b ∈ ds) : b ∉ w := fun hin => h b hin hb

theorem Free.union (h : Free ds w) (h' : Free es w) : Free (ds ++ es) w := fun b hb hin =>
  (List.mem_append.mp hin).elim (h b hb) (h' b hb)

theorem stops_nil : Stops ds [] := fun _ h => (by cases h)

theorem stops_cons {b : UInt8} : Stops ds (b :: w) ↔ b ∈ ds := by simp [Stops]

theorem cutAt_eq : cutAt ds s = (w, rest) ↔ s = w ++ rest ∧ Free ds w ∧ Stops ds rest := by
  constructor
  · rintro ⟨⟩
    refine ⟨List.takeWhile_append_dropWhile.symm, fun b hb => ?_, fun b hb => ?_⟩
    · exact of_decide_eq_true (List.all_eq_true.mp List.all_takeWhile b hb)
    · have hstop := List.head?_dropWhile_not (fun b => decide (b ∉ ds)) s
      rw [Option.mem_def.mp hb] at hstop
      simpa using hstop
  · rintro ⟨rfl, hw, hrest⟩
    have hall : ∀ b ∈ w, decide (b ∉ ds) = true := fun b hb => decide_eq_true (hw b hb)
    rw [cutAt, List.takeWhile_append_of_pos hall, List.dropWhile_append_of_pos hall]
    cases rest with
    | nil => simp
    | cons b rest => simp [stops_cons.mp hrest]

theorem cutAt_spec (ds : List UInt8) (s : Bytes) :
    s = (cutAt ds s).1 ++ (cutAt ds s).2 ∧ Free ds (cutAt ds s).1 ∧ Stops ds (cutAt ds s).2 :=
  cutAt_eq.mp rfl

/-- Where the text is not cut at the byte, it does not have it. -/
theorem free_of_cutAt {c : UInt8} (hno : ∀ w r, cutAt [c] s = (w, c :: r) → False) :
    Free [c] s := by
  obtain ⟨hs, hfree, hstop⟩ := cutAt_spec [c] s
  cases hr : (cutAt [c] s).2 with
  | nil =>
    rw [hr, List.append_nil] at hs
    rw [hs]
    exact hfree
  | cons b r =>
    rw [hr] at hstop
    obtain rfl := List.mem_singleton.mp (stops_cons.mp hstop)
    exact (hno _ r (Prod.ext rfl hr)).elim

/-- A text begins in one way with one that is free of some bytes and ends in front of one of
    them. -/
theorem append_inj_of_stops (h : w ++ rest = v ++ s) (hw : Free ds w) (hv : Free ds v)
    (hrest : Stops ds rest) (hs : Stops ds s) : w = v ∧ rest = s := by
  have h1 : cutAt ds (w ++ rest) = (w, rest) := cutAt_eq.mpr ⟨rfl, hw, hrest⟩
  have h2 : cutAt ds (w ++ rest) = (v, s) := cutAt_eq.mpr ⟨h, hv, hs⟩
  rw [h1] at h2
  cases h2
  exact ⟨rfl, rfl⟩

/-- The optional component `w` behind its delimiter. -/
def prefixed (d : Bytes) : Option Bytes → Bytes
  | none => []
  | some w => d ++ w

/-- The optional component `w` in front of its delimiter. -/
def suffixed (d : Bytes) : Option Bytes → Bytes
  | none => []
  | some w => w ++ d

/-- The component behind a delimiter, if there is one. -/
def tailOf (d : UInt8) : Bytes → Option Bytes
  | [] => none
  | b :: w => if b = d then some w else none

section

variable {d : UInt8} {o : Option Bytes}

theorem prefixed_tailOf (h : Stops [d] s) : prefixed [d] (tailOf d s) = s := by
  cases s with
  | nil => rfl
  | cons b s =>
    obtain rfl := List.mem_singleton.mp (stops_cons.mp h)
    simp [tailOf, prefixed]

theorem tailOf_prefixed : tailOf d (prefixed [d] o) = o := by
  cases o <;> simp [prefixed, tailOf]

theorem stops_prefixed (h : d ∈ ds) : Stops ds (prefixed [d] o) := by
  cases o with
  | none => exact stops_nil
  | some w => exact stops_cons.mpr h

theorem free_tailOf (h : Free ds s) : ∀ w ∈ tailOf d s, Free ds w := by
  intro w hw
  cases s with
  | nil => cases hw
  | cons b s =>
    simp only [tailOf] at hw
    split at hw
    · cases hw
      exact (free_cons.mp h).2
    · cases hw

end

structure UriAuthority where
  userinfo : Option Bytes
  host : Bytes
  port : Option Bytes
  deriving DecidableEq

structure UriParts where
  scheme : Option Bytes
  authority : Option UriAuthority
  path : Bytes
  query : Option Bytes
  fragment : Option Bytes
  deriving DecidableEq

namespace UriAuthority

def text (a : UriAuthority) : Bytes := suffixed [64] a.userinfo ++ a.host ++ prefixed [58] a.port

/-- No component contains a byte that would end it.  What begins with a bracket is a host. -/
structure Delimited (a : UriAuthority) : Prop where
  userinfo : ∀ u ∈ a.userinfo, Free [47, 63, 35, 64] u ∧ u.head? ≠ some 91
  host : Free [47, 63, 35] a.host
  port : ∀ p ∈ a.port, Free [47, 63, 35] p
  noAt : a.userinfo = none → a.host.head? ≠ some 91 →
    Free [64] a.host ∧ ∀ p ∈ a.port, Free [64] p
  noColon : a.host.head? ≠ some 91 → Free [58] a.host
  literal : ∀ x, a.host = 91 :: x → (Free [93] x ∧ a.port = none) ∨
    ∃ i z, x = i ++ 93 :: z ∧ Free [93] i ∧ Free [58] z

def splitHost (userinfo : Option Bytes) (s : Bytes) : UriAuthority :=
  match s with
  | 91 :: x =>
    match cutAt [93] x with
    | (i, 93 :: y) => ⟨userinfo, 91 :: i ++ 93 :: (cutAt [58] y).1, tailOf 58 (cutAt [58] y).2⟩
    | _ => ⟨userinfo, s, none⟩
  | _ => ⟨userinfo, (cutAt [58] s).1, tailOf 58 (cutAt [58] s).2⟩

def split (s : Bytes) : UriAuthority :=
  match cutAt [64] s with
  | (u, 64 :: r) => if u.head? = some 91 then splitHost none s else splitHost (some u) r
  | _ => splitHost none s

theorem text_splitHost (userinfo : Option Bytes) (s : Bytes) :
    (splitHost userinfo s).text = suffixed [64] userinfo ++ s := by
  unfold splitHost
  split
  · rename_i x
    obtain ⟨hx, -, -⟩ := cutAt_spec [93] x
    split
    · rename_i i y hcut
      obtain ⟨hy, -, hstop⟩ := cutAt_spec [58] y
      rw [hcut] at hx
      simp only [text, prefixed_tailOf hstop, List.append_assoc, List.cons_append, ← hy]
      rw [hx]
    · simp [text, prefixed]
  · obtain ⟨hs, -, hstop⟩ := cutAt_spec [58] s
    simp only [text, prefixed_tailOf hstop, List.append_assoc, ← hs]

theorem text_split (s : Bytes) : (split s).text = s := by
  rw [split]
  obtain ⟨hs, -, -⟩ := cutAt_spec [64] s
  split
  · rename_i u r hcut
    rw [hcut] at hs
    split
    · exact text_splitHost none s
    · rw [text_splitHost, hs]
      simp [suffixed]
  · exact text_splitHost none s

theorem splitHost_delimited {userinfo : Option Bytes} (hs : Free [47, 63, 35] s)
    (huser : ∀ u ∈ userinfo, Free [47, 63, 35, 64] u ∧ u.head? ≠ some 91)
    (hat : userinfo = none → s.head? ≠ some 91 → Free [64] s) :
    (splitHost userinfo s).Delimited := by
  unfold splitHost
  split
  · rename_i x
    obtain ⟨hx, hfree, -⟩ := cutAt_spec [93] x
    have hxfree := (free_cons.mp hs).2
    split
    · rename_i i y hcut
      rw [hcut] at hx hfree
      obtain ⟨hy, hyfree, -⟩ := cutAt_spec [58] y
      rw [hx] at hxfree
      obtain ⟨hi, hy'⟩ := free_append.mp hxfree
      have hyall := (free_cons.mp hy').2
      rw [hy] at hyall
      obtain ⟨hz, hp⟩ := free_append.mp hyall
      refine ⟨huser, ?_, free_tailOf hp, fun _ h => absurd rfl h, fun h => absurd rfl h, ?_⟩
      · exact free_cons.mpr ⟨by decide, free_append.mpr ⟨hi, free_cons.mpr ⟨by decide, hz⟩⟩⟩
      · rintro x hx
        exact Or.inr ⟨i, _, (List.cons.inj hx).2.symm, hfree, hyfree⟩
    · rename_i hno
      refine ⟨huser, hs, fun p hp => (by cases hp), fun _ h => absurd rfl h,
        fun h => absurd rfl h, ?_⟩
      rintro x' ⟨⟩
      exact Or.inl ⟨free_of_cutAt hno, rfl⟩
  · rename_i hno
    have hhead : s.head? ≠ some 91 := by
      cases s with
      | nil => simp
      | cons b s =>
        rintro ⟨⟩
        exact hno s rfl
    obtain ⟨hs', hfree, -⟩ := cutAt_spec [58] s
    have hall := hs
    rw [hs'] at hall
    obtain ⟨hh, hp⟩ := free_append.mp hall
    refine ⟨huser, hh, free_tailOf hp, fun hnone hh91 => ?_, fun _ => hfree, fun x hx => ?_⟩
    · have hat' := hat hnone hhead
      rw [hs'] at hat'
      obtain ⟨h1, h2⟩ := free_append.mp hat'
      exact ⟨h1, free_tailOf h2⟩
    · simp only at hx
      rw [hs', hx] at hhead
      exact absurd rfl hhead

theorem split_delimited (hs : Free [47, 63, 35] s) : (split s).Delimited := by
  rw [split]
  obtain ⟨hsplit, hfree, -⟩ := cutAt_spec [64] s
  split
  · rename_i u r hcut
    rw [hcut] at hsplit hfree
    rw [hsplit] at hs
    obtain ⟨hu, hr⟩ := free_append.mp hs
    split
    · rename_i hhead
      rw [← hsplit] at hs
      refine splitHost_delimited hs (fun u hu => (by cases hu)) fun _ hne => absurd ?_ hne
      cases u with
      | nil => cases hhead
      | cons b u => rw [hsplit]; exact hhead
    · rename_i hhead
      refine splitHost_delimited (free_cons.mp hr).2 ?_ fun h => (by cases h)
      rintro u' ⟨⟩
      exact ⟨hu.union hfree, hhead⟩
  · rename_i hno
    exact splitHost_delimited hs (fun u hu => (by cases hu)) fun _ _ => free_of_cutAt hno

theorem splitHost_text {a : UriAuthority} (h : a.Delimited) :
    splitHost a.userinfo (a.host ++ prefixed [58] a.port) = a := by
  obtain ⟨userinfo, host, port⟩ := a
  have hstop : Stops [58] (prefixed [58] port) := stops_prefixed (List.mem_singleton_self 58)
  by_cases hhead : host.head? = some 91
  · obtain ⟨x, rfl⟩ : ∃ x, host = 91 :: x := by
      cases host with
      | nil => cases hhead
      | cons b x =>
        cases hhead
        exact ⟨x, rfl⟩
    rcases h.literal x rfl with ⟨hx, rfl⟩ | ⟨i, z, rfl, hi, hz⟩
    · have hcut : cutAt [93] x = (x, []) :=
        cutAt_eq.mpr ⟨(List.append_nil x).symm, hx, stops_nil⟩
      simp [splitHost, prefixed, hcut]
    · have hcut : cutAt [93] (i ++ 93 :: (z ++ prefixed [58] port)) =
          (i, 93 :: (z ++ prefixed [58] port)) :=
        cutAt_eq.mpr ⟨rfl, hi, stops_cons.mpr (List.mem_singleton_self 93)⟩
      have hport : cutAt [58] (z ++ prefixed [58] port) = (z, prefixed [58] port) :=
        cutAt_eq.mpr ⟨rfl, hz, hstop⟩
      simp [splitHost, hcut, hport, tailOf_prefixed]
  · have hcut : cutAt [58] (host ++ prefixed [58] port) = (host, prefixed [58] port) :=
      cutAt_eq.mpr ⟨rfl, h.noColon hhead, hstop⟩
    unfold splitHost
    split
    · rename_i x hx
      cases host with
      | nil => cases port <;> cases hx
      | cons b host =>
        cases hx
        exact absurd rfl hhead
    · rw [hcut]
      simp only [tailOf_prefixed]

theorem split_text {a : UriAuthority} (h : a.Delimited) : split a.text = a := by
  cases huser : a.userinfo with
  | some u =>
    obtain ⟨hu, hhead⟩ := h.userinfo u huser
    have hcut : cutAt [64] a.text = (u, 64 :: (a.host ++ prefixed [58] a.port)) := by
      refine cutAt_eq.mpr ⟨by simp [text, suffixed, huser], hu.mono (by decide), ?_⟩
      exact stops_cons.mpr (List.mem_singleton_self 64)
    rw [split, hcut]
    simp only [if_neg hhead, ← huser]
    exact splitHost_text h
  | none =>
    have htext : a.text = a.host ++ prefixed [58] a.port := by simp [text, suffixed, huser]
    have hsplit := splitHost_text h
    rw [huser, ← htext] at hsplit
    rw [split]
    split
    · rename_i u r hcut
      obtain ⟨hs, hu, -⟩ := cutAt_eq.mp hcut
      split
      · exact hsplit
      · rename_i hhead
        have hne : a.host.head? ≠ some 91 := by
          intro h91
          cases hhost : a.host with
          | nil => simp [hhost] at h91
          | cons b x =>
            rw [hhost] at h91 htext
            cases h91
            rw [htext] at hs
            cases u with
            | nil => exact absurd (List.cons.inj hs).1 (by decide)
            | cons c u =>
              obtain ⟨rfl, -⟩ := List.cons.inj hs
              exact hhead rfl
        obtain ⟨hhost, hport⟩ := h.noAt huser hne
        have hfree : Free [64] a.text := by
          rw [htext]
          refine free_append.mpr ⟨hhost, ?_⟩
          cases hp : a.port with
          | none => exact free_nil
          | some p => exact free_cons.mpr ⟨by decide, hport p hp⟩
        rw [hs] at hfree
        exact absurd (List.mem_singleton_self 64) (free_cons.mp (free_append.mp hfree).2).1
    · exact hsplit

theorem Delimited.free_text {a : UriAuthority} (h : a.Delimited) : Free [47, 63, 35] a.text := by
  refine free_append.mpr ⟨free_append.mpr ⟨?_, h.host⟩, ?_⟩
  · cases huser : a.userinfo with
    | none => exact free_nil
    | some u =>
      refine free_append.mpr ⟨(h.userinfo u huser).1.mono (by decide), ?_⟩
      exact free_cons.mpr ⟨by decide, free_nil⟩
  · cases hport : a.port with
    | none => exact free_nil
    | some p => exact free_cons.mpr ⟨by decide, h.port p hport⟩

end UriAuthority

namespace UriParts

def hier (u : UriParts) : Bytes :=
  (match u.authority with
    | none => []
    | some a => 47 :: 47 :: a.text) ++ u.path

def tail (u : UriParts) : Bytes := prefixed [63] u.query ++ prefixed [35] u.fragment

def text (u : UriParts) : Bytes := suffixed [58] u.scheme ++ (u.hier ++ u.tail)

/-- No component contains a byte that would end it, and what is taken for the path is not a scheme
    or an authority. -/
structure Delimited (u : UriParts) : Prop where
  scheme : ∀ s ∈ u.scheme, Free [58, 47, 63, 35] s
  authority : ∀ a ∈ u.authority, a.Delimited
  path : Free [63, 35] u.path
  slash : u.authority ≠ none → Stops [47] u.path
  noAuthority : u.authority = none → ∀ r, u.path ≠ 47 :: 47 :: r
  noScheme : u.scheme = none → u.authority = none → Stops [47] (cutAt [58, 47] u.path).2
  query : ∀ q ∈ u.query, Free [35] q

def splitTail (scheme : Option Bytes) (authority : Option UriAuthority) (s : Bytes) : UriParts :=
  match cutAt [63, 35] s with
  | (path, 63 :: r) => ⟨scheme, authority, path, some (cutAt [35] r).1, tailOf 35 (cutAt [35] r).2⟩
  | (path, r) => ⟨scheme, authority, path, none, tailOf 35 r⟩

def splitHier (scheme : Option Bytes) (s : Bytes) : UriParts :=
  match s with
  | 47 :: 47 :: r =>
    splitTail scheme (some (UriAuthority.split (cutAt [47, 63, 35] r).1)) (cutAt [47, 63, 35] r).2
  | _ => splitTail scheme none s

/-- The decomposition of a text. -/
def split (s : Bytes) : UriParts :=
  match cutAt [58, 47, 63, 35] s with
  | (a, 58 :: r) => splitHier (some a) r
  | _ => splitHier none s

theorem text_splitTail (scheme : Option Bytes) (authority : Option UriAuthority) (s : Bytes) :
    (splitTail scheme authority s).text =
      (UriParts.mk scheme authority s none none).text := by
  obtain ⟨hs, -, hstop⟩ := cutAt_spec [63, 35] s
  unfold splitTail
  split
  · rename_i path r hcut
    obtain ⟨hr, -, hstop'⟩ := cutAt_spec [35] r
    rw [hcut] at hs
    simp only [text, hier, tail, prefixed_tailOf hstop']
    rw [hs]
    conv_rhs => rw [hr]
    simp [prefixed]
  · rename_i path r hno hcut
    rw [hcut] at hs hstop
    have hstop' : Stops [35] r := by
      cases r with
      | nil => exact stops_nil
      | cons b r =>
        have hb := stops_cons.mp hstop
        refine stops_cons.mpr ((List.mem_cons.mp hb).resolve_left ?_)
        rintro rfl
        exact hno r rfl
    simp only [text, hier, tail, prefixed_tailOf hstop']
    rw [hs]
    simp [prefixed]

theorem text_splitHier (scheme : Option Bytes) (s : Bytes) :
    (splitHier scheme s).text = suffixed [58] scheme ++ s := by
  unfold splitHier
  split
  · rename_i r
    obtain ⟨hr, -, -⟩ := cutAt_spec [47, 63, 35] r
    rw [text_splitTail]
    simp only [text, hier, tail, UriAuthority.text_split]
    conv_rhs => rw [hr]
    simp [prefixed]
  · rw [text_splitTail]
    simp [text, hier, tail, prefixed]

theorem text_split (s : Bytes) : (split s).text = s := by
  obtain ⟨hs, -, -⟩ := cutAt_spec [58, 47, 63, 35] s
  unfold split
  split
  · rename_i a r hcut
    rw [hcut] at hs
    rw [text_splitHier, hs]
    simp [suffixed]
  · rw [text_splitHier]
    rfl

/-- What is left of the conditions behind the path. -/
theorem splitTail_delimited {scheme : Option Bytes} {authority : Option UriAuthority}
    (hscheme : ∀ s ∈ scheme, Free [58, 47, 63, 35] s)
    (hauthority : ∀ a ∈ authority, a.Delimited)
    (hslash : authority ≠ none → Stops [47, 63, 35] s)
    (hno : authority = none → ∀ r, s ≠ 47 :: 47 :: r)
    (hcolon : scheme = none → authority = none → Stops [47, 63, 35] (cutAt [58, 47, 63, 35] s).2) :
    (splitTail scheme authority s).Delimited := by
  obtain ⟨hs, hfree, hstop⟩ := cutAt_spec [63, 35] s
  have hpath : ∀ query fragment, (∀ q ∈ query, Free [35] q) →
      (UriParts.mk scheme authority (cutAt [63, 35] s).1 query fragment).Delimited := by
    intro query fragment hquery
    refine ⟨hscheme, hauthority, hfree, fun h b hb => ?_, fun h r hr => ?_, fun h1 h2 => ?_, hquery⟩
    · cases hp : (cutAt [63, 35] s).1 with
      | nil => simp [hp] at hb
      | cons c p =>
        rw [hp] at hs hb hfree
        cases hb
        have hb := hslash h
        rw [hs] at hb
        refine List.mem_singleton.mpr ((List.mem_cons.mp (stops_cons.mp hb)).resolve_right ?_)
        exact (free_cons.mp hfree).1
    · simp only at hr
      refine hno h (r ++ (cutAt [63, 35] s).2) ?_
      rw [hr] at hs
      exact hs
    · obtain ⟨hp, ha, hstop'⟩ := cutAt_spec [58, 47] (cutAt [63, 35] s).1
      cases hq : (cutAt [58, 47] (cutAt [63, 35] s).1).2 with
      | nil => exact stops_nil
      | cons b q =>
        rw [hq] at hp hstop'
        refine stops_cons.mpr ((List.mem_cons.mp (stops_cons.mp hstop')).resolve_left ?_)
        rintro rfl
        rw [hp] at hs hfree
        have hcut : cutAt [58, 47, 63, 35] s =
            ((cutAt [58, 47] (cutAt [63, 35] s).1).1, 58 :: (q ++ (cutAt [63, 35] s).2)) := by
          refine cutAt_eq.mpr ⟨?_, ha.union (free_append.mp hfree).1, stops_cons.mpr (by decide)⟩
          rw [← List.cons_append, ← List.append_assoc]
          exact hs
        have := hcolon h1 h2
        rw [hcut] at this
        exact absurd (stops_cons.mp this) (by decide)
  unfold splitTail
  split
  · rename_i path r hcut
    obtain ⟨-, hq, -⟩ := cutAt_spec [35] r
    have := hpath (some (cutAt [35] r).1) (tailOf 35 (cutAt [35] r).2) (by rintro q ⟨⟩; exact hq)
    rwa [hcut] at this
  · rename_i path r hno' hcut
    have := hpath none (tailOf 35 r) (fun q hq => by cases hq)
    rwa [hcut] at this

theorem splitHier_delimited {scheme : Option Bytes}
    (hscheme : ∀ s ∈ scheme, Free [58, 47, 63, 35] s)
    (hcolon : scheme = none → Stops [47, 63, 35] (cutAt [58, 47, 63, 35] s).2) :
    (splitHier scheme s).Delimited := by
  unfold splitHier
  split
  · rename_i r
    obtain ⟨-, hfree, hstop⟩ := cutAt_spec [47, 63, 35] r
    refine splitTail_delimited hscheme ?_ (fun _ => hstop) (fun h => (by cases h))
      fun _ h => (by cases h)
    rintro a ⟨⟩
    exact UriAuthority.split_delimited hfree
  · rename_i hno
    exact splitTail_delimited hscheme (fun a ha => (by cases ha)) (fun h => absurd rfl h)
      (fun _ r hr => hno r hr) fun h _ => hcolon h

theorem split_delimited (s : Bytes) : (split s).Delimited := by
  obtain ⟨hs, hfree, hstop⟩ := cutAt_spec [58, 47, 63, 35] s
  unfold split
  split
  · rename_i a r hcut
    rw [hcut] at hfree
    refine splitHier_delimited ?_ fun h => (by cases h)
    rintro a' ⟨⟩
    exact hfree
  · rename_i hno
    refine splitHier_delimited (fun a ha => (by cases ha)) fun _ => ?_
    cases hr : (cutAt [58, 47, 63, 35] s).2 with
    | nil => exact stops_nil
    | cons b r =>
      rw [hr] at hstop
      refine stops_cons.mpr ((List.mem_cons.mp (stops_cons.mp hstop)).resolve_left ?_)
      rintro rfl
      exact hno _ r (Prod.ext rfl hr)

theorem tail_stops (u : UriParts) : Stops [63, 35] u.tail := by
  cases hq : u.query with
  | none =>
    have htail : u.tail = prefixed [35] u.fragment := by simp [tail, hq, prefixed]
    rw [htail]
    exact stops_prefixed (by decide)
  | some q =>
    have htail : u.tail = 63 :: (q ++ prefixed [35] u.fragment) := by simp [tail, hq, prefixed]
    rw [htail]
    exact stops_cons.mpr (by decide)

/-- What stands behind an authority. -/
theorem path_stops (u : UriParts) (h : Stops [47] w) : Stops [47, 63, 35] (w ++ u.tail) := by
  cases w with
  | nil =>
    intro b hb
    exact List.mem_cons_of_mem _ (u.tail_stops b hb)
  | cons b w =>
    obtain rfl := List.mem_singleton.mp (stops_cons.mp h)
    exact stops_cons.mpr (by decide)

theorem splitTail_text {u : UriParts} (h : u.Delimited) :
    splitTail u.scheme u.authority (u.path ++ u.tail) = u := by
  obtain ⟨scheme, authority, path, query, fragment⟩ := u
  have hcut :
      cutAt [63, 35] (path ++ tail ⟨scheme, authority, path, query, fragment⟩) = (path, _) :=
    cutAt_eq.mpr ⟨rfl, h.path, tail_stops _⟩
  cases query with
  | none =>
    simp only [splitTail, hcut]
    cases fragment <;> simp [tail, prefixed, tailOf]
  | some q =>
    have hq : cutAt [35] (q ++ prefixed [35] fragment) = (q, prefixed [35] fragment) :=
      cutAt_eq.mpr ⟨rfl, h.query q rfl, stops_prefixed (List.mem_singleton_self 35)⟩
    have htail : tail ⟨scheme, authority, path, some q, fragment⟩ =
        63 :: (q ++ prefixed [35] fragment) := by simp [tail, prefixed]
    rw [htail] at hcut ⊢
    simp only [splitTail, hcut, hq, tailOf_prefixed]

theorem splitHier_text {u : UriParts} (h : u.Delimited) :
    splitHier u.scheme (u.hier ++ u.tail) = u := by
  cases hauth : u.authority with
  | none =>
    have hhier : u.hier = u.path := by simp [hier, hauth]
    have hsplit := splitTail_text h
    rw [hauth, ← hhier] at hsplit
    unfold splitHier
    split
    · rename_i r hr
      rw [hhier] at hr
      -- the path does not begin with two slashes, nor does what follows it
      cases hp : u.path with
      | nil =>
        rw [hp] at hr
        have hstop := u.tail_stops
        rw [show u.tail = 47 :: 47 :: r from hr] at hstop
        exact absurd (stops_cons.mp hstop) (by decide)
      | cons b p =>
        rw [hp] at hr
        obtain ⟨rfl, hr'⟩ := List.cons.inj hr
        cases p with
        | nil =>
          have hstop := u.tail_stops
          rw [show u.tail = 47 :: r from hr'] at hstop
          exact absurd (stops_cons.mp hstop) (by decide)
        | cons c p =>
          obtain ⟨rfl, -⟩ := List.cons.inj hr'
          exact absurd hp (h.noAuthority hauth p)
    · exact hsplit
  | some a =>
    have hfree := (h.authority a hauth).free_text
    have hslash := h.slash (by simp [hauth])
    have hstop := u.path_stops hslash
    have hcut : cutAt [47, 63, 35] (a.text ++ (u.path ++ u.tail)) = (a.text, u.path ++ u.tail) :=
      cutAt_eq.mpr ⟨rfl, hfree, hstop⟩
    have hhier : u.hier ++ u.tail = 47 :: 47 :: (a.text ++ (u.path ++ u.tail)) := by
      simp [hier, hauth]
    have hsplit := splitTail_text h
    rw [hauth] at hsplit
    rw [hhier, splitHier, hcut]
    simp only [UriAuthority.split_text (h.authority a hauth)]
    exact hsplit

/-- The decomposition finds the components a text is composed of. -/
theorem split_text {u : UriParts} (h : u.Delimited) : split u.text = u := by
  cases hs : u.scheme with
  | some a =>
    have hcut : cutAt [58, 47, 63, 35] u.text = (a, 58 :: (u.hier ++ u.tail)) := by
      refine cutAt_eq.mpr ⟨by simp [text, suffixed, hs], h.scheme a hs, stops_cons.mpr (by decide)⟩
    rw [split, hcut]
    simp only [← hs]
    exact splitHier_text h
  | none =>
    have htext : u.text = u.hier ++ u.tail := by simp [text, suffixed, hs]
    have hsplit := splitHier_text h
    rw [hs, ← htext] at hsplit
    unfold split
    split
    · rename_i a r hcut
      obtain ⟨hr, ha, -⟩ := cutAt_eq.mp hcut
      rw [htext] at hr
      -- a colon in front of every other delimiter would be one of the first segment
      cases hauth : u.authority with
      | some au =>
        have hhier : u.hier = 47 :: 47 :: (au.text ++ u.path) := by simp [hier, hauth]
        rw [hhier] at hr
        cases a with
        | nil => exact absurd (List.cons.inj hr).1 (by decide)
        | cons b a =>
          obtain ⟨rfl, -⟩ := List.cons.inj hr
          exact absurd (free_cons.mp ha).1 (by decide)
      | none =>
        have hhier : u.hier = u.path := by simp [hier, hauth]
        have hstop := h.noScheme hs hauth
        obtain ⟨hp, hpfree, -⟩ := cutAt_spec [58, 47] u.path
        have hpath := h.path
        rw [hp] at hpath
        have hfree : Free [58, 47, 63, 35] (cutAt [58, 47] u.path).1 :=
          hpfree.union (free_append.mp hpath).1
        have hall : Stops [47, 63, 35] ((cutAt [58, 47] u.path).2 ++ u.tail) := by
          intro b hb
          cases hq : (cutAt [58, 47] u.path).2 with
          | nil =>
            rw [hq] at hb
            exact List.mem_cons_of_mem _ (u.tail_stops b hb)
          | cons c q =>
            rw [hq] at hb hstop
            cases hb
            exact List.mem_cons.mpr (Or.inl (List.mem_singleton.mp (stops_cons.mp hstop)))
        rw [hhier, hp, List.append_assoc] at hr
        obtain ⟨-, h58⟩ := append_inj_of_stops hr hfree ha
          (fun b hb => List.mem_cons_of_mem 58 (hall b hb)) (stops_cons.mpr (by decide))
        rw [h58] at hall
        exact absurd (stops_cons.mp hall) (by decide)
    · exact hsplit

end UriParts

end CppServerFramework.HTTP

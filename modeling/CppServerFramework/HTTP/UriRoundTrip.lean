import CppServerFramework.HTTP.UriProps

/-!
# Decomposition and round trip of URIs

Which of the stored components are those of the text, and which `Uri`s come back from what
`toString` writes of them.
-/

namespace CppServerFramework.HTTP
open UriGrammar

variable {w : Bytes} {b : UInt8} {u : UriParts} {v : Uri} {text : Bytes}

/-! ## Ports -/

/-- `atoi` of digits that stand for a small number. -/
theorem atoi_digits (hw : ∀ b ∈ w, 48 ≤ b ∧ b ≤ 57) (hne : w ≠ []) (hlt : decimalValue w < 2 ^ 31) :
    atoi w = decimalValue w := by
  have hfold : ∀ (l : Bytes) (n : Nat), (∀ b ∈ l, b ∈ w) →
      l.foldl (fun n b => 10 * n + digitOf b) n =
        l.foldl (fun n b => 10 * n + (b.toNat - 48)) n := by
    intro l
    induction l with
    | nil => exact fun n _ => rfl
    | cons b l ih =>
      intro n hl
      rw [List.forall_mem_cons] at hl
      rw [List.foldl_cons, List.foldl_cons, digitOf_digit (hw b hl.1), ih _ hl.2]
  cases w with
  | nil => exact absurd rfl hne
  | cons d w =>
    rw [atoi_cons (hw d List.mem_cons_self),
      List.takeWhile_eq_self_iff.mpr fun b hb => digitOf_lt (hw b hb), hfold _ 0 fun _ h => h]
    rw [← decimalValue]
    generalize decimalValue (d :: w) = n at *
    rw [show max (-2 ^ 63) (min (2 ^ 63 - 1) (n : Int)) = n by omega]
    exact Int.bmod_eq_of_le (by omega) (by omega)

/-! ## Decomposition -/

/-- A digit stands behind the first colon. -/
def PortLike (w : Bytes) : Prop := ∃ a d r, w = a ++ 58 :: d :: r ∧ 58 ∉ a ∧ 48 ≤ d ∧ d ≤ 57

theorem keptUserinfo_iff : keptUserinfo w = w ↔ ¬ PortLike w := by
  constructor
  · rintro h ⟨a, d, r, rfl, ha, hd⟩
    have hfree : Free [58] a := fun b hb h58 => ha (List.mem_singleton.mp h58 ▸ hb)
    rw [keptUserinfo_colon hfree, if_pos hd] at h
    have := congrArg List.length h
    simp only [List.length_append, List.length_cons] at this
    omega
  · intro h
    obtain ⟨heq, ha, hr⟩ := cutAt_spec [58] w
    generalize cutAt [58] w = c at *
    obtain ⟨a, r⟩ := c
    simp only at heq ha hr
    subst heq
    cases r with
    | nil => rw [List.append_nil, keptUserinfo_of_free ha]
    | cons c r =>
      obtain rfl := List.mem_singleton.mp (stops_cons.mp hr)
      cases r with
      | nil => exact keptUserinfo_end ha
      | cons d r =>
        rw [keptUserinfo_colon ha, if_neg]
        exact fun hd => h ⟨a, d, r, rfl, fun h58 => ha 58 h58 (List.mem_singleton_self 58), hd⟩

/-- The number that the port stands for, if there is one. -/
def UriParts.portNumber (u : UriParts) : Nat :=
  decimalValue ((u.authority.bind UriAuthority.port).getD [])

/-- The fields are the components, or empty; ports above 65535 are not compared. -/
structure Uri.Decomposes (v : Uri) (u : UriParts) : Prop where
  scheme : v.scheme = u.scheme.getD []
  userinfo : v.userinfo = (u.authority.bind UriAuthority.userinfo).getD []
  host : v.host = (u.authority.map UriAuthority.host).getD []
  port : u.portNumber ≤ 65535 → v.port = u.portNumber
  path : v.path = u.path
  query : v.query = u.query.getD []
  fragment : v.fragment = u.fragment.getD []

/-- No digit stands behind the first colon of a user, and a path that is not empty has a scheme and
    an authority in front of it. -/
structure UriParts.KeptWhole (u : UriParts) : Prop where
  userinfo : ∀ a ∈ u.authority, ∀ w ∈ a.userinfo, ¬ PortLike w
  path : u.path = [] ∨ u.scheme ≠ none ∧ u.authority ≠ none

/-- Only the port is stored. -/
theorem Uri.storePort_eq (v : Uri) (p : Bytes) :
    v.storePort p = { v with port := if p = [] then v.port else atoi p } := by
  rw [storePort]
  split <;> rfl

theorem atoi_port (hw : w ∈ UriGrammar.port.language) (hle : decimalValue w ≤ 65535) :
    (if w = [] then 0 else atoi w) = decimalValue w := by
  split
  · rename_i h
    rw [h]
    rfl
  · rename_i h
    exact atoi_digits (fun b hb => digit_of_mem_port hw hb) h (by omega)

theorem stored_authority (scheme : Option Bytes) (a : UriAuthority) (path : Bytes)
    (query fragment : Option Bytes) : UriParts.stored ⟨scheme, some a, path, query, fragment⟩ =
      { scheme := scheme.getD [], userinfo := (a.userinfo.map keptUserinfo).getD [],
        host := a.host, port := if a.port.getD [] = [] then 0 else atoi (a.port.getD []),
        path := if scheme.isSome then path else [], query := query.getD [],
        fragment := fragment.getD [] } := by
  simp only [UriParts.stored, UriAuthority.store, Uri.storePort_eq]
  cases scheme <;> rfl

theorem stored_decomposes_iff (hu : u.Grammatical host) :
    u.stored.Decomposes u ↔ u.KeptWhole := by
  obtain ⟨scheme, authority, path, query, fragment⟩ := u
  cases authority with
  | none =>
    constructor
    · rintro ⟨-, -, -, -, hpath, -, -⟩
      exact ⟨fun a ha => (by cases ha), Or.inl hpath.symm⟩
    · rintro ⟨-, hpath⟩
      refine ⟨rfl, rfl, rfl, fun _ => rfl, ?_, rfl, rfl⟩
      exact (hpath.resolve_right fun h => h.2 rfl).symm
  | some a =>
    obtain ⟨-, -, hport⟩ := hu.authority a rfl
    have hnil : [] ∈ UriGrammar.port.language := Regex.nil_mem_language.mpr rfl
    have hport : decimalValue (a.port.getD []) ≤ 65535 →
        (if a.port.getD [] = [] then 0 else atoi (a.port.getD [])) =
          decimalValue (a.port.getD []) := by
      cases hp : a.port with
      | none => exact atoi_port hnil
      | some p => exact atoi_port (hport p hp)
    have huser : (a.userinfo.map keptUserinfo).getD [] = a.userinfo.getD [] ↔
        ∀ w ∈ a.userinfo, ¬ PortLike w := by
      cases a.userinfo with
      | none => simp
      | some w => simp [keptUserinfo_iff]
    have hpath : (if scheme.isSome then path else []) = path ↔ path = [] ∨ scheme ≠ none := by
      cases scheme <;> simp [eq_comm]
    rw [stored_authority]
    constructor
    · rintro ⟨-, h, -, -, h', -, -⟩
      refine ⟨?_, (hpath.mp h').imp_right fun h => ⟨h, by simp⟩⟩
      rintro a ⟨⟩
      exact huser.mp h
    · rintro ⟨h, h'⟩
      exact ⟨rfl, huser.mpr (h a rfl), rfl, hport, hpath.mpr (h'.imp_right And.left), rfl, rfl⟩

/-- What is stored of an accepted text is its decomposition, unless a digit stands behind the first
    colon of the userinfo, or there is a path without a scheme or without an authority. -/
theorem Uri.decomposes_iff (h : Uri.createUri text = .ok (some v)) :
    v.Decomposes (UriParts.split text) ↔ (UriParts.split text).KeptWhole := by
  obtain ⟨hu, -, rfl⟩ := createUri_iff.mp h
  exact stored_decomposes_iff hu

theorem Uri.decomposes_kept : ∃ v, Uri.createUri (ascii "http://me@h:8/a") = .ok (some v) ∧
    v.Decomposes (UriParts.split (ascii "http://me@h:8/a")) := by
  refine ⟨_, rfl, (Uri.decomposes_iff rfl).mpr ⟨?_, Or.inr ⟨by decide, by decide⟩⟩⟩
  rintro a ⟨⟩ w ⟨⟩
  exact keptUserinfo_iff.mp rfl

/-- The mark is set at the digit, and a path without an authority is not stored. -/
theorem Uri.decomposes_not : ∃ v v',
    Uri.createUri (ascii "http://user:80@host/") = .ok (some v) ∧
      ¬ v.Decomposes (UriParts.split (ascii "http://user:80@host/")) ∧
        v.userinfo = ascii "80" ∧
    Uri.createUri (ascii "scheme:/a/b") = .ok (some v') ∧
      ¬ v'.Decomposes (UriParts.split (ascii "scheme:/a/b")) ∧ v'.path = [] := by
  refine ⟨_, _, rfl, fun h => ?_, rfl, rfl, fun h => ?_, rfl⟩
  · exact absurd h.userinfo (by decide)
  · exact absurd h.path (by decide)

/-! ## Round trip -/

namespace Uri

/-- A URI whose fields are of their grammars; the path is empty or begins with a slash. -/
structure WellFormed (v : Uri) : Prop where
  scheme : v.scheme ∈ UriGrammar.scheme.language
  userinfo : v.userinfo ∈ UriGrammar.userinfo.language
  host : v.host ∈ UriGrammar.host.language
  host_ne_nil : v.host ≠ []
  port : 0 ≤ v.port ∧ v.port ≤ 65535
  path : v.path ∈ pathAbempty.language
  query : v.query ∈ UriGrammar.query.language
  fragment : v.fragment ∈ UriGrammar.fragment.language

/-- `CreateUri` gives the same fields for what `toString` writes. -/
def RoundTrips (v : Uri) : Prop :=
  ∃ v', createUri v.toString = .ok (some v') ∧ v'.scheme = v.scheme ∧ v'.userinfo = v.userinfo ∧
    v'.host = v.host ∧ v'.getPort = v.getPort ∧ v'.getPath = v.getPath ∧ v'.query = v.query ∧
      v'.fragment = v.fragment

/-- A component that is written only if it is not empty. -/
def written (w : Bytes) : Option Bytes := if w.isEmpty then none else some w

/-- The components of what `toString` writes. -/
def parts (v : Uri) : UriParts where
  scheme := some v.scheme
  authority := some ⟨written v.userinfo, v.host,
    if v.isDefaultPort then none else some (portString v.port)⟩
  path := v.getPath
  query := written v.query
  fragment := written v.fragment

theorem text_parts (v : Uri) : v.parts.text = v.toString := by
  have hscheme : ascii "://" = [58, 47, 47] := rfl
  have hat : ascii "@" = [64] := rfl
  have hcolon : ascii ":" = [58] := rfl
  have hquery : ascii "?" = [63] := rfl
  have hfragment : ascii "#" = [35] := rfl
  have hprefixed : ∀ d w, prefixed d (written w) = (if w.isEmpty then [] else d) ++ w := by
    intro d w
    cases w <;> rfl
  have hsuffixed : ∀ d w, suffixed d (written w) = w ++ if w.isEmpty then [] else d := by
    intro d w
    cases w <;> rfl
  simp only [UriParts.text, UriParts.hier, UriParts.tail, UriAuthority.text, parts, toString,
    hprefixed, hsuffixed, hscheme, hat, hcolon, hquery, hfragment]
  cases v.isDefaultPort <;> simp [suffixed, prefixed]

theorem portString_mem {port : Int} (h : 0 ≤ port) :
    portString port ∈ UriGrammar.port.language := by
  rw [portString, if_neg (by omega), List.nil_append]
  refine Regex.mem_star_set fun b hb => ?_
  have := digit_of_mem_decimal hb
  simpa [inRanges, UriGrammar.digit, UInt8.le_iff_toNat_le] using this

theorem parts_grammatical (h : v.WellFormed) : v.parts.Grammatical UriGrammar.host := by
  have hwritten : ∀ {r : Regex} {w : Bytes}, w ∈ r.language → ∀ x ∈ written w, x ∈ r.language := by
    intro r w hw x hx
    cases w with
    | nil => cases hx
    | cons b w =>
      cases hx
      exact hw
  have hpath : v.getPath ∈ pathAbempty.language := by
    rw [getPath]
    split
    · exact slash_mem_pathAbempty.mpr nil_mem_path
    · exact h.path
  refine ⟨fun w hw => ?_, ?_, hpath, hwritten h.query, hwritten h.fragment⟩
  · cases hw
    exact h.scheme
  · rintro a ⟨⟩
    refine ⟨hwritten h.userinfo, h.host, fun w hw => ?_⟩
    rw [Option.mem_def, Option.ite_none_left_eq_some] at hw
    cases hw.2
    exact portString_mem h.port.1

theorem portString_ne_nil (port : Int) : portString port ≠ [] := by
  rw [portString]
  exact List.append_ne_nil_of_right_ne_nil _ (decimal_ne_nil _)

theorem atoi_portString {port : Int} (h : 0 ≤ port ∧ port ≤ 65535) :
    atoi (portString port) = port := by
  rw [portString, if_neg (by omega), List.nil_append, atoi_digits (fun b => digit_of_mem_decimal)
    (decimal_ne_nil _) (by rw [decimalValue_decimal]; omega), decimalValue_decimal]
  omega

/-- A default port is found again when it is not written. -/
theorem getPort_of_isDefaultPort (h : v.isDefaultPort = true) :
    getPort { v with port := 0 } = v.getPort := by
  rw [isDefaultPort] at h
  rw [getPort, getPort]
  split at h
  · rename_i hport
    simp [hport]
  · rename_i hport
    split at h
    · rename_i hscheme
      simp [hscheme, of_decide_eq_true h]
    · rename_i hscheme
      split at h
      · rename_i hscheme'
        simp [hscheme', of_decide_eq_true h, show ascii "https" ≠ ascii "http" by decide]
      · cases h

theorem roundTrips_iff (h : v.WellFormed) : v.RoundTrips ↔ ¬ PortLike v.userinfo := by
  have hparts := parts_grammatical h
  have hempty : ¬ v.parts.EmptyPort := by
    rintro ⟨-, a, ⟨⟩, hport⟩
    rw [Option.ite_none_left_eq_some] at hport
    exact portString_ne_nil v.port (Option.some.inj hport.2)
  have hcreate : ∀ v', createUri v.toString = .ok (some v') ↔ v' = v.parts.stored := by
    intro v'
    rw [← text_parts, createUri_text (hparts.delimited fun w => hostLike_of_mem)]
    simp [hparts, hempty]
  have hwritten : ∀ w, (written w).getD [] = w := by
    intro w
    cases w <;> rfl
  have huser : ((written v.userinfo).map keptUserinfo).getD [] = keptUserinfo v.userinfo := by
    cases v.userinfo <;> rfl
  have hstored : v.parts.stored =
      { scheme := v.scheme, userinfo := keptUserinfo v.userinfo, host := v.host,
        path := v.getPath, query := v.query, fragment := v.fragment,
        port := if v.isDefaultPort then 0 else v.port } := by
    rw [parts, stored_authority]
    simp only [hwritten, huser]
    cases hdefault : v.isDefaultPort
    · simp [portString_ne_nil, atoi_portString h.port]
    · simp
  have hport : getPort { v with port := if v.isDefaultPort then 0 else v.port } = v.getPort := by
    cases hdefault : v.isDefaultPort
    · rfl
    · exact getPort_of_isDefaultPort hdefault
  have hpath : getPath { v with path := v.getPath } = v.getPath := by
    cases hp : v.path <;> simp [getPath, hp, ascii]
  rw [← keptUserinfo_iff]
  constructor
  · rintro ⟨v', hv', -, huser, -⟩
    rw [(hcreate v').mp hv', hstored] at huser
    exact huser
  · intro huser
    exact ⟨_, (hcreate _).mpr rfl, by rw [hstored], by rw [hstored]; exact huser, by rw [hstored],
      by rw [hstored]; exact hport, by rw [hstored]; exact hpath, by rw [hstored], by rw [hstored]⟩

theorem roundTrips_me : RoundTrips ⟨ascii "http", ascii "me", ascii "h", ascii "/a", [], [], 8⟩ :=
  (roundTrips_iff ⟨Regex.accepts_iff.mp (by decide), Regex.accepts_iff.mp (by decide),
    Regex.accepts_iff.mp (by decide), by decide, by decide, Regex.accepts_iff.mp (by decide),
    Regex.accepts_iff.mp (by decide), Regex.accepts_iff.mp (by decide)⟩).mpr
    (keptUserinfo_iff.mp rfl)

theorem roundTrips_not : let v : Uri := ⟨ascii "http", ascii "a:1", ascii "h", [], [], [], 0⟩
    v.WellFormed ∧ ¬ v.RoundTrips := by
  refine ⟨⟨Regex.accepts_iff.mp (by decide), Regex.accepts_iff.mp (by decide),
    Regex.accepts_iff.mp (by decide), by decide, by decide, Regex.accepts_iff.mp (by decide),
    Regex.accepts_iff.mp (by decide), Regex.accepts_iff.mp (by decide)⟩, ?_⟩
  rintro ⟨v', hv', -, huser, -⟩
  have hcreate : createUri (toString ⟨ascii "http", ascii "a:1", ascii "h", [], [], [], 0⟩) =
      .ok (some ⟨ascii "http", ascii "1", ascii "h", ascii "/", [], [], 0⟩) := rfl
  rw [hcreate] at hv'
  cases hv'
  exact absurd huser (by decide)

end Uri

end CppServerFramework.HTTP

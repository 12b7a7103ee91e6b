import Mathlib.Data.List.TakeWhile
import CppServerFramework.HTTP.UriParts

/-!
# The host and the service of a name

How `Address::Lookup` (`socket/ipaddress.cpp:91-157`) takes a string apart for `getaddrinfo`.  The
pointer `service` is set in the one stage and left in the other.
-/

namespace CppServerFramework.Socket

open HTTP (Bytes Free)

/-- What is handed to `getaddrinfo`, if the string is not refused before. -/
inductive HostPair where
  | refused
  | handed (node : Bytes) (service : Option Bytes)
  deriving DecidableEq, Repr

/-- The bytes that a pointer to `i` shows as a C string. -/
def cString (host : Bytes) (i : Nat) : Bytes := (host.drop i).takeWhile (· ≠ 0)

/-- `memchr(host.c_str() + start, c, host.size() - start)` -/
def memchr (host : Bytes) (start : Nat) (c : UInt8) : Option Nat :=
  ((host.drop start).idxOf? c).map (start + ·)

/-- The first stage (`ipaddress.cpp:106-130`): the node and `service`; `none` if the string is
    refused. -/
def bracketStage (host : Bytes) : Option (Bytes × Option Nat) :=
  if host.head? = some 91 then
    match memchr host 1 93 with
    | none => some ([], none)
    | some endipv6 =>
      let node := (host.drop 1).take (endipv6 - 1)
      if host[endipv6 + 1]? = some 58 then
        if endipv6 + 2 < host.length then some (node, some (endipv6 + 2)) else none
      else some (node, none)
  else some ([], none)

/-- The second stage (`ipaddress.cpp:133-148`), where there is no node. -/
def colonStage (host : Bytes) : Option (Bytes × Option Nat) :=
  match memchr host 0 58 with
  | none => some ([], none)
  | some service =>
    if service + 1 < host.length then
      if (memchr host (service + 1) 58).isNone then some (host.take service, some (service + 1))
      else some ([], some service)
    else none

/-- `Address::Lookup`, up to `getaddrinfo` (`ipaddress.cpp:91-152`). -/
def lookupPair (host : Bytes) : HostPair :=
  match bracketStage host with
  | none => .refused
  | some (node, service) =>
    match if node.isEmpty then colonStage host else some (node, service) with
    | none => .refused
    | some (node, service) =>
      let node := if node.isEmpty then host else node
      .handed (node.takeWhile (· ≠ 0)) (service.map (cString host))

/-! ## Which pair is right -/

/-- `[n]` or `[n]:s` -/
def Bracketed (host : Bytes) : Prop :=
  ∃ n rest, n ≠ [] ∧ 93 ∉ n ∧ host = 91 :: (n ++ 93 :: rest) ∧ (rest = [] ∨ rest.head? = some 58)

/-- The pairs of the forms of a host. -/
structure SplitsHost (host : Bytes) (r : HostPair) : Prop where
  literal : ∀ n, n ≠ [] → 93 ∉ n → host = 91 :: (n ++ [93]) → r = .handed n none
  literalService : ∀ n s, n ≠ [] → 93 ∉ n → s ≠ [] → host = 91 :: (n ++ 93 :: 58 :: s) →
    r = .handed n (some s)
  literalColon : ∀ n, n ≠ [] → 93 ∉ n → host = 91 :: (n ++ [93, 58]) → r = .refused
  service : ∀ h s, h ≠ [] → s ≠ [] → 58 ∉ h → 58 ∉ s → host = h ++ 58 :: s → ¬Bracketed host →
    r = .handed h (some s)
  colon : ∀ h, 58 ∉ h → host = h ++ [58] → ¬Bracketed host → r = .refused
  bare : host.head? ≠ some 91 → host.count 58 = 0 ∨ 2 ≤ host.count 58 → r = .handed host none

/-- A literal without brackets, or one in brackets with something else than a service behind it. -/
inductive Ambiguous (host : Bytes) : Prop
  | bare : host.head? ≠ some 91 → 2 ≤ host.count 58 → Ambiguous host
  | behind (n : Bytes) (b : UInt8) (rest : Bytes) : n ≠ [] → 93 ∉ n → b ≠ 58 →
    host = 91 :: (n ++ 93 :: b :: rest) → host.count 58 = 1 → Ambiguous host

/-! ## The stages -/

variable {host n h s rest : Bytes} {c : UInt8}

theorem memchr_eq (pre rest : Bytes) (hc : c ∉ n) :
    memchr (pre ++ (n ++ c :: rest)) pre.length c = some (pre.length + n.length) := by
  have hidx : (n ++ c :: rest).idxOf? c = some n.length := by
    rw [List.idxOf?_eq_some_iff]
    refine ⟨by simp, by simp, fun j hj heq => ?_⟩
    rw [List.getElem_append_left hj] at heq
    exact hc (heq ▸ List.getElem_mem hj)
  rw [memchr, List.drop_left, hidx]
  rfl

theorem memchr_eq_none {start : Nat} : memchr host start c = none ↔ c ∉ host.drop start := by
  rw [memchr, Option.map_eq_none_iff, List.idxOf?_eq_none_iff]

theorem cString_append (pre : Bytes) (hs : 0 ∉ s) : cString (pre ++ s) pre.length = s := by
  rw [cString, List.drop_left, List.takeWhile_eq_self_iff]
  exact fun b hb => decide_eq_true fun hzero => hs (hzero ▸ hb)

theorem takeWhile_node (hn : 0 ∉ n) : n.takeWhile (· ≠ 0) = n := cString_append [] hn

theorem drop_behind : (h ++ c :: s).drop (h.length + 1) = s := by
  rw [List.drop_length_add_append]
  rfl

/-- A node in brackets. -/
theorem bracketStage_closed (hn : 93 ∉ n) :
    bracketStage (91 :: (n ++ 93 :: rest)) =
      if rest.head? = some 58 then
        if 1 < rest.length then some (n, some (n.length + 3)) else none
      else some (n, none) := by
  have hend : memchr (91 :: (n ++ 93 :: rest)) 1 93 = some (1 + n.length) := memchr_eq [91] rest hn
  have hnode : (n ++ 93 :: rest).take n.length = n := List.take_left
  have hnext : (91 :: (n ++ 93 :: rest))[1 + n.length + 1]? = rest.head? := by
    rw [show 1 + n.length + 1 = n.length + 2 by omega, List.getElem?_cons_succ,
      List.getElem?_append_right (by omega), List.head?_eq_getElem?]
    simp
  rw [bracketStage, if_pos List.head?_cons, hend]
  simp only [hnext, List.drop_one, List.tail_cons, Nat.add_sub_cancel_left, hnode]
  congr 1
  rw [show 1 + n.length + 2 = n.length + 3 by omega]
  refine if_congr ?_ rfl rfl
  simp only [List.length_cons, List.length_append]
  omega

theorem bracketStage_open (hhost : host.head? = some 91 → 93 ∉ host.tail) :
    bracketStage host = some ([], none) := by
  rw [bracketStage]
  split
  · rename_i hhead
    rw [memchr_eq_none.mpr (by simpa using hhost hhead)]
  · rfl

theorem colonStage_none (hhost : 58 ∉ host) : colonStage host = some ([], none) := by
  rw [colonStage, memchr_eq_none.mpr (by simpa using hhost)]

/-- With one colon, it separates the service. -/
theorem colonStage_one (hh : 58 ∉ h) (hs : 58 ∉ s) :
    colonStage (h ++ 58 :: s) = if s = [] then none else some (h, some (h.length + 1)) := by
  have hfirst : memchr (h ++ 58 :: s) 0 58 = some h.length := by
    simpa using memchr_eq [] s hh
  have hsecond : memchr (h ++ 58 :: s) (h.length + 1) 58 = none := by
    rwa [memchr_eq_none, drop_behind]
  rw [colonStage, hfirst]
  cases s with
  | nil => simp
  | cons b s => simp [hsecond]

/-- With more of them `service` stays at the first one, and there is no node. -/
theorem colonStage_many (hh : 58 ∉ h) (hs : 58 ∈ s) :
    colonStage (h ++ 58 :: s) = some ([], some h.length) := by
  have hfirst : memchr (h ++ 58 :: s) 0 58 = some h.length := by
    simpa using memchr_eq [] s hh
  have hsecond : memchr (h ++ 58 :: s) (h.length + 1) 58 ≠ none := by
    rwa [Ne, memchr_eq_none, drop_behind, not_not]
  have hlen : h.length + 1 < (h ++ 58 :: s).length := by
    have := List.length_pos_of_mem hs
    simp only [List.length_append, List.length_cons]
    omega
  rw [colonStage, hfirst]
  simp only [if_pos hlen, Option.isNone_iff_eq_none, if_neg hsecond]

/-! ## The two stages together -/

theorem lookupPair_closed (hne : n ≠ []) (hn : 93 ∉ n) (hzero : 0 ∉ 91 :: (n ++ 93 :: rest)) :
    lookupPair (91 :: (n ++ 93 :: rest)) =
      if rest.head? = some 58 then
        if 1 < rest.length then .handed n (some rest.tail) else .refused
      else .handed n none := by
  have hempty : n.isEmpty = false := by simpa using hne
  have hnode : ∀ b ∈ n, ¬b = 0 := fun b hb h0 => hzero (by simp [← h0, hb])
  rw [lookupPair, bracketStage_closed hn]
  cases rest with
  | nil => simpa [hempty] using hnode
  | cons b rest =>
    have hservice : cString (91 :: (n ++ 93 :: b :: rest)) (n.length + 3) = rest := by
      have hrest : 0 ∉ rest := fun h => hzero (by simp [h])
      have := cString_append (91 :: (n ++ [93, b])) hrest
      simpa using this
    by_cases hb : b = 58
    · subst hb
      cases rest with
      | nil => simp
      | cons b rest => simpa [hempty] using ⟨hnode, hservice⟩
    · simpa [hb, hempty] using hnode

theorem lookupPair_refused {sv : Option Nat} (hb : bracketStage host = some ([], sv))
    (hc : colonStage host = none) : lookupPair host = .refused := by
  simp [lookupPair, hb, hc]

theorem lookupPair_open {sv service : Option Nat} (hb : bracketStage host = some ([], sv))
    (hc : colonStage host = some (n, service)) :
    lookupPair host =
      .handed ((if n = [] then host else n).takeWhile (· ≠ 0)) (service.map (cString host)) := by
  simp [lookupPair, hb, hc]

/-- There is no node behind the first stage, unless there is one in brackets. -/
theorem bracketStage_cases (hopen : ¬Bracketed host)
    (hbehind : ∀ n b rest, n ≠ [] → 93 ∉ n → b ≠ 58 → host ≠ 91 :: (n ++ 93 :: b :: rest)) :
    (∃ sv, bracketStage host = some ([], sv)) ∨ host = [91, 93, 58] ∧ bracketStage host = none := by
  by_cases hclosed : host.head? = some 91 ∧ 93 ∈ host.tail
  · obtain ⟨hhead, hmem⟩ := hclosed
    obtain ⟨n, rest, htail, hn⟩ := List.eq_append_cons_of_mem hmem
    have hhost : host = 91 :: (n ++ 93 :: rest) := by
      rw [← htail, List.eq_cons_of_mem_head? hhead, List.tail_cons]
    have hnil : n = [] := by
      by_contra hne
      cases rest with
      | nil => exact hopen ⟨n, [], hne, hn, hhost, .inl rfl⟩
      | cons b rest =>
        by_cases hb : b = 58
        · exact hopen ⟨n, b :: rest, hne, hn, hhost, .inr (by rw [hb]; rfl)⟩
        · exact hbehind n b rest hne hn hb hhost
    have hstage : bracketStage (91 :: (n ++ 93 :: rest)) = _ := bracketStage_closed hn
    rw [← hhost, hnil] at hstage
    split at hstage
    · rename_i hcolon
      split at hstage
      · exact .inl ⟨_, hstage⟩
      · rename_i hlen
        obtain ⟨rest, rfl⟩ : ∃ rest', rest = 58 :: rest' :=
          ⟨_, List.eq_cons_of_mem_head? hcolon⟩
        have hrest : rest = [] := List.eq_nil_of_length_eq_zero (by simpa using hlen)
        exact .inr ⟨by rw [hhost, hnil, hrest]; rfl, hstage⟩
    · exact .inl ⟨_, hstage⟩
  · rw [not_and] at hclosed
    exact .inl ⟨none, bracketStage_open hclosed⟩

theorem not_bracketed {b : UInt8} (hn : 93 ∉ n) (hb : b ≠ 58) :
    ¬Bracketed (91 :: (n ++ 93 :: b :: rest)) := by
  rintro ⟨n', rest', -, hn', heq, hrest⟩
  have hfree : ∀ {w : Bytes}, 93 ∉ w → Free [93] w :=
    fun hw c hc hin => hw (List.mem_singleton.mp hin ▸ hc)
  obtain ⟨-, heq⟩ := HTTP.append_inj_of_stops (List.cons.inj heq).2 (hfree hn) (hfree hn')
    (HTTP.stops_cons.mpr (List.mem_singleton_self _))
    (HTTP.stops_cons.mpr (List.mem_singleton_self _))
  cases heq
  rcases hrest with hrest | hrest
  · cases hrest
  · exact hb (Option.some.inj hrest)

/-- A text with colons, taken apart at the first of them. -/
theorem exists_colon (hcount : 1 ≤ host.count 58) :
    ∃ h s, host = h ++ 58 :: s ∧ 58 ∉ h ∧ host.count 58 = s.count 58 + 1 := by
  obtain ⟨h, s, rfl, hh⟩ := List.eq_append_cons_of_mem (List.count_pos_iff.mp hcount)
  refine ⟨h, s, rfl, hh, ?_⟩
  rw [List.count_append, List.count_eq_zero_of_not_mem hh, List.count_cons_self, Nat.zero_add]

theorem count_colon (hh : 58 ∉ h) (hs : 58 ∉ s) : (h ++ 58 :: s).count 58 = 1 := by
  rw [List.count_append, List.count_eq_zero_of_not_mem hh, List.count_cons_self,
    List.count_eq_zero_of_not_mem hs]

/-- The service that is left at the first colon, or the tail that is forgotten. -/
theorem Ambiguous.not_splitsHost (hamb : Ambiguous host) (hzero : 0 ∉ host) :
    ¬SplitsHost host (lookupPair host) := by
  intro hsplit
  cases hamb with
  | bare hhead hcount =>
    obtain ⟨h, s, hhost, hh, hs⟩ := exists_colon (by omega : 1 ≤ host.count 58)
    have hmem : 58 ∈ s := List.count_pos_iff.mp (by omega)
    have hbare := hsplit.bare hhead (.inr hcount)
    rw [lookupPair_open (bracketStage_open fun h => absurd h hhead)
      (hhost ▸ colonStage_many hh hmem)] at hbare
    exact absurd (HostPair.handed.inj hbare).2 nofun
  | behind n b rest hne hn hb hhost hcount =>
    obtain ⟨h, s, hhost', hh, hs⟩ := exists_colon (by omega : 1 ≤ host.count 58)
    have hs : 58 ∉ s := List.count_eq_zero.mp (by omega)
    have hpair : lookupPair host = .handed n none := by
      rw [hhost, lookupPair_closed hne hn (hhost ▸ hzero)]
      simp [hb]
    have hopen : ¬Bracketed host := hhost ▸ not_bracketed hn hb
    by_cases hnil : s = []
    · have := hsplit.colon h hh (hnil ▸ hhost') hopen
      rw [hpair] at this
      cases this
    · have hne' : h ≠ [] := by
        rintro rfl
        rw [hhost] at hhost'
        cases hhost'
      have := hsplit.service h s hne' hnil hh hs hhost' hopen
      rw [hpair] at this
      cases this

/-- `h:s` -/
theorem lookupPair_service (hzero : 0 ∉ h ++ 58 :: s) (hne : h ≠ [])
    (hstage : colonStage (h ++ 58 :: s) = some (h, some (h.length + 1)))
    (hcases : (∃ sv, bracketStage (h ++ 58 :: s) = some ([], sv)) ∨
      h ++ 58 :: s = [91, 93, 58] ∧ bracketStage (h ++ 58 :: s) = none) :
    lookupPair (h ++ 58 :: s) = .handed h (some s) := by
  have hservice : cString (h ++ 58 :: s) (h.length + 1) = s := by
    have hs0 : 0 ∉ s := fun h0 => hzero (by simp [h0])
    have := cString_append (h ++ [58]) hs0
    simpa using this
  have hh0 : 0 ∉ h := fun h0 => hzero (by simp [h0])
  rcases hcases with ⟨sv, hsv⟩ | ⟨heq, -⟩
  · rw [lookupPair_open hsv hstage, if_neg hne, takeWhile_node hh0, Option.map_some, hservice]
  · have hnone : colonStage [91, 93, 58] = none := by decide
    rw [heq, hnone] at hstage
    cases hstage

theorem splitsHost_of_not_ambiguous (hzero : 0 ∉ host) (hnot : ¬Ambiguous host) :
    SplitsHost host (lookupPair host) := by
  have hcases : host.count 58 = 1 → ¬Bracketed host →
      (∃ sv, bracketStage host = some ([], sv)) ∨
        host = [91, 93, 58] ∧ bracketStage host = none := by
    intro hcount hopen
    refine bracketStage_cases hopen fun n b rest hne hn hb hhost => ?_
    exact hnot (.behind n b rest hne hn hb hhost hcount)
  constructor
  · rintro n hne hn rfl
    rw [lookupPair_closed hne hn hzero]
    rfl
  · rintro n s hne hn hs rfl
    rw [lookupPair_closed hne hn hzero]
    have := List.length_pos_iff.mpr hs
    simp [this]
  · rintro n hne hn rfl
    exact lookupPair_closed hne hn hzero
  · rintro h s hne hs hh hs' rfl hopen
    have hstage := colonStage_one hh hs'
    rw [if_neg hs] at hstage
    exact lookupPair_service hzero hne hstage (hcases (count_colon hh hs') hopen)
  · intro h hh hhost hopen
    have hstage : colonStage host = none := by
      rw [hhost, colonStage_one hh (by simp), if_pos rfl]
    rcases hcases (hhost ▸ count_colon hh (by simp)) hopen with ⟨sv, hsv⟩ | ⟨-, hnone⟩
    · exact lookupPair_refused hsv hstage
    · rw [lookupPair, hnone]
  · intro hhead hcolons
    have hnone : host.count 58 = 0 := by
      rcases hcolons with hzero | htwo
      · exact hzero
      · exact absurd (.bare hhead htwo) hnot
    rw [lookupPair_open (bracketStage_open fun h => absurd h hhead)
      (colonStage_none (List.count_eq_zero.mp hnone)), if_pos rfl, takeWhile_node hzero]
    rfl

/-- `Address::Lookup` splits a host as it should exactly if it is neither a literal without brackets
    nor one in brackets with a tail. -/
theorem lookup_splitsHost_iff (host : Bytes) (hzero : 0 ∉ host) :
    SplitsHost host (lookupPair host) ↔ ¬Ambiguous host := by
  constructor
  · intro hsplit hamb
    exact hamb.not_splitsHost hzero hsplit
  · exact splitsHost_of_not_ambiguous hzero

theorem lookup_splitsHost_example :
    SplitsHost (HTTP.ascii "[::1]:80") (.handed (HTTP.ascii "::1") (some (HTTP.ascii "80"))) := by
  have hamb : ¬Ambiguous (HTTP.ascii "[::1]:80") := by
    rintro (⟨hhead, -⟩ | ⟨n, b, rest, -, -, -, -, hcount⟩)
    · exact hhead rfl
    · exact absurd hcount (by decide)
  exact (lookup_splitsHost_iff (HTTP.ascii "[::1]:80") (by decide)).mpr hamb

/-- The node of `::1` is `::1`, and so is its service. -/
theorem lookup_bareLiteral :
    lookupPair (HTTP.ascii "::1") = .handed (HTTP.ascii "::1") (some (HTTP.ascii "::1")) ∧
      ¬SplitsHost (HTTP.ascii "::1") (lookupPair (HTTP.ascii "::1")) := by
  have hpair : lookupPair (HTTP.ascii "::1") =
      .handed (HTTP.ascii "::1") (some (HTTP.ascii "::1")) := by
    decide
  refine ⟨hpair, fun h => ?_⟩
  have := h.bare (by decide) (.inr (by decide))
  rw [hpair] at this
  cases this

end CppServerFramework.Socket

import CppServerFramework.Socket.AddressText

/-!
# Addresses of Unix sockets

The constructor of `UnixAddress` from a path (`socket/ipaddress.cpp:509-523`).  A path that begins
with a null byte is the name of an abstract socket and is stored as it is, any other one with a null
byte behind it.
-/

namespace CppServerFramework.Socket

open HTTP (Bytes ascii)

/-- The bytes of a name that are stored. -/
def storedName (path : Bytes) : Bytes := if path.head? = some 0 then path else path ++ [0]

namespace UnixAddress

/-- `m_length` before `offsetof(sockaddr_un, sun_path)` is added to it. -/
def nameLength (path : Bytes) : UInt32 :=
  let m_length := UInt32.ofNat (path.length + 1)
  if path.head? = some 0 then m_length - 1 else m_length

/-- `UnixAddress(path)` (`ipaddress.cpp:509-523`), which throws where there is no room. -/
def ofPath (path : Bytes) : Option UnixAddress :=
  if h : 108 < (nameLength path).toNat then none
  else some {
    sun_family := 1
    -- `memcpy` from `c_str()`, into zeros
    sun_path := Vector.ofFn fun i =>
      if i < (nameLength path).toNat then (path ++ [0])[i.val]?.getD 0 else 0
    m_length := nameLength path + 2
    length_le := by
      rw [UInt32.toNat_add]
      have : (2 : UInt32).toNat = 2 := rfl
      omega }

variable {host : Endian} {path p q : Bytes} {a b : UnixAddress}

theorem toNat_nameLength (hlen : path.length + 1 < 2 ^ 32) :
    (nameLength path).toNat = (storedName path).length := by
  have hofNat : (UInt32.ofNat (path.length + 1)).toNat = path.length + 1 :=
    UInt32.toNat_ofNat_of_lt' hlen
  rw [nameLength, storedName]
  split
  · have hle : (1 : UInt32) ≤ UInt32.ofNat (path.length + 1) := by
      rw [UInt32.le_iff_toNat_le, hofNat]
      exact Nat.le_add_left 1 _
    rw [UInt32.toNat_sub_of_le _ _ hle, hofNat]
    rfl
  · rw [hofNat, List.length_append]
    rfl

/-- What the constructor stores. -/
structure Stores (a : UnixAddress) (path : Bytes) : Prop where
  family : a.sun_family = 1
  sun_path : a.sun_path.toList =
    storedName path ++ List.replicate (108 - (storedName path).length) 0
  m_length : a.m_length.toNat = (storedName path).length + 2

theorem getElem?_storedName {i : Nat} (h : i < (storedName path).length) :
    (path ++ [0])[i]? = (storedName path)[i]? := by
  rw [storedName] at h ⊢
  split
  · next hzero =>
    rw [if_pos hzero] at h
    exact List.getElem?_append_left h
  · rfl

theorem isSome_ofPath (hlen : path.length + 1 < 2 ^ 32) :
    (ofPath path).isSome ↔ (storedName path).length ≤ 108 := by
  rw [ofPath, ← toNat_nameLength hlen]
  split <;> simp <;> omega

theorem stores_of_ofPath (hlen : path.length + 1 < 2 ^ 32) (h : ofPath path = some a) :
    a.Stores path := by
  have hlength := toNat_nameLength hlen
  rw [ofPath] at h
  split at h
  · cases h
  · next hroom =>
    cases h
    refine ⟨rfl, ?_, ?_⟩
    · apply List.ext_getElem?
      intro i
      rw [Vector.getElem?_toList, Vector.getElem?_ofFn, hlength]
      by_cases hi : i < (storedName path).length
      · obtain ⟨x, hx⟩ : ∃ x, (storedName path)[i]? = some x :=
          ⟨_, List.getElem?_eq_getElem hi⟩
        rw [List.getElem?_append_left hi, hx, dif_pos (by omega), if_pos hi,
          getElem?_storedName hi, hx]
        rfl
      · rw [List.getElem?_append_right (by omega), List.getElem?_replicate]
        simp only [if_neg hi]
        split <;> split <;> first | rfl | omega
    · rw [UInt32.toNat_add, hlength]
      have : (2 : UInt32).toNat = 2 := rfl
      omega

/-! ## The order of the paths -/

theorem Stores.key (h : a.Stores path) :
    (Address.unix a).key host = memory host 2 1 ++ storedName path := by
  have hone : BitVec.toNat (1 : BitVec 16) = 1 := rfl
  have hlength : (memory host 2 1).length = 2 := length_memory 2 1
  rw [Address.key, Address.getAddr, Address.getAddrLen, h.family, h.sun_path, h.m_length, hone,
    ← List.append_assoc]
  exact List.take_left' (by rw [List.length_append, hlength, Nat.add_comm])

theorem compare_zero {c : UInt8} (hc : c ≠ 0) : compare 0 c = .lt := by
  rw [Std.compare_eq_lt, UInt8.lt_iff_toNat_lt]
  exact Nat.pos_of_ne_zero fun h => hc (UInt8.toNat_inj.mp h)

/-- An abstract name comes before the paths, but for the empty one. -/
theorem compare_abstract {p : Bytes} (hq : q.head? ≠ some 0) (hne : p = [] → q ≠ []) :
    compare (0 :: p) (q ++ [0]) = compare (0 :: p) q := by
  cases q with
  | nil =>
    cases p with
    | nil => exact absurd rfl (hne rfl)
    | cons b p => rfl
  | cons c q =>
    have hc : c ≠ 0 := fun h => hq (by rw [h]; rfl)
    rw [List.cons_append, List.compare_cons_cons, List.compare_cons_cons, compare_zero hc]
    rfl

/-- The null byte behind a path comes before every other byte. -/
theorem compare_storedName (hne : ¬(p = [] ∧ q = [0])) (hne' : ¬(p = [0] ∧ q = [])) :
    compare (storedName p) (storedName q) = compare p q := by
  rw [storedName, storedName]
  split
  · next hp =>
    split
    · rfl
    · next hq =>
      obtain ⟨p, rfl⟩ := List.head?_eq_some_iff.mp hp
      exact compare_abstract hq fun hnil hq => hne' ⟨by rw [hnil], hq⟩
  · next hp =>
    split
    · next hq =>
      obtain ⟨q, rfl⟩ := List.head?_eq_some_iff.mp hq
      rw [Std.OrientedOrd.eq_swap (a := p ++ [0]), Std.OrientedOrd.eq_swap (a := p),
        compare_abstract hp fun hnil hp => hne ⟨hp, by rw [hnil]⟩]
    · exact Memcmp.compare_terminated (fun c => by
        by_cases hc : c = 0
        · subst hc
          decide
        · rw [compare_zero hc]
          decide) p q

theorem compare_append_left (r p q : Bytes) : compare (r ++ p) (r ++ q) = compare p q := by
  induction r with
  | nil => rfl
  | cons b r ih =>
    rw [List.cons_append, List.cons_append, List.compare_cons_cons, Std.compare_self, ih]
    rfl

/-- The empty path and the abstract name that is empty. -/
def Unnamed (p q : Bytes) : Prop := p = [] ∧ q = [0] ∨ p = [0] ∧ q = []

theorem Stores.compare_key (hp : a.Stores p) (hq : b.Stores q) (hne : ¬Unnamed p q) :
    compare ((Address.unix a).key host) ((Address.unix b).key host) = compare p q := by
  rw [Unnamed, not_or] at hne
  rw [hp.key, hq.key, compare_append_left, compare_storedName hne.1 hne.2]

theorem Stores.key_unnamed (hp : a.Stores p) (hq : b.Stores q) (hun : Unnamed p q) :
    (Address.unix a).key host = (Address.unix b).key host := by
  rw [hp.key, hq.key]
  rcases hun with ⟨rfl, rfl⟩ | ⟨rfl, rfl⟩ <;> rfl

/-! ## Texts -/

theorem Stores.insert_abstract (h : a.Stores (0 :: path)) :
    a.insert = ascii "\\0" ++ path := by
  have hlist : a.sun_path.toList =
      0 :: (path ++ List.replicate (108 - (path.length + 1)) 0) := h.sun_path
  have hlength : a.m_length.toNat = path.length + 3 := h.m_length
  rw [insert, hlist, hlength, if_pos ⟨by omega, rfl⟩]
  simp

theorem takeWhile_terminated (path rest : Bytes) :
    (path ++ 0 :: rest).takeWhile (· ≠ 0) = path.takeWhile (· ≠ 0) := by
  induction path with
  | nil => rfl
  | cons b path ih => rw [List.cons_append, List.takeWhile_cons, List.takeWhile_cons, ih]

theorem Stores.insert_path (h : a.Stores path) (hhead : path.head? ≠ some 0) (hne : path ≠ []) :
    a.insert = path.takeWhile (· ≠ 0) := by
  have hlist := h.sun_path
  rw [storedName, if_neg hhead, List.append_assoc, List.singleton_append] at hlist
  have hhead' : a.sun_path.toList.head? ≠ some 0 := by
    rwa [hlist, List.head?_append_of_ne_nil _ hne]
  rw [insert, if_neg fun hand => hhead' hand.2, hlist]
  exact takeWhile_terminated path _

theorem Stores.insert_nil (h : a.Stores []) : a.insert = ascii "\\0" := by
  have hlist : a.sun_path.toList = 0 :: List.replicate 107 0 := h.sun_path
  have hlength : a.m_length.toNat = 3 := h.m_length
  rw [insert, hlist, hlength, if_pos ⟨by omega, rfl⟩]
  rfl

/-- The text is the path where this is one without a null byte. -/
theorem Stores.insert_eq_iff (h : a.Stores path) : a.insert = path ↔ path ≠ [] ∧ 0 ∉ path := by
  have hbackslash : ascii "\\0" = [92, 48] := by decide
  cases path with
  | nil => simp [h.insert_nil, hbackslash]
  | cons b path =>
    by_cases hb : b = 0
    · subst hb
      simp [h.insert_abstract, hbackslash]
    · rw [h.insert_path (by simpa using hb) (List.cons_ne_nil b path),
        List.takeWhile_eq_self_iff]
      simp only [ne_eq, decide_eq_true_eq, reduceCtorEq, not_false_eq_true, true_and]
      exact ⟨fun hall hmem => hall 0 hmem rfl, fun hnot b hb heq => hnot (heq ▸ hb)⟩

end UnixAddress

open UnixAddress

/-- There is an address for each path that leaves room for a null byte, and for each abstract name
    that has room.  Addresses are ordered as their paths are, where the empty path is the empty
    abstract name, and a path without a null byte is written as it was given. -/
theorem unixAddress_ofPath (host : Endian) {p q : Bytes} (hp : p.length + 1 < 2 ^ 32)
    (hq : q.length + 1 < 2 ^ 32) :
    ((ofPath p).isSome ↔ p.length ≤ if p.head? = some 0 then 108 else 107) ∧
      ∀ a b, ofPath p = some a → ofPath q = some b →
        ((Address.unix a).toString host = p ↔ p ≠ [] ∧ 0 ∉ p) ∧
        (∀ name, p = 0 :: name → (Address.unix a).toString host = ascii "\\0" ++ name) ∧
        ((Address.unix a).eq host (.unix b) = true ↔ p = q ∨ Unnamed p q) ∧
        ((Address.unix a).lt host (.unix b) = true ↔ compare p q = .lt ∧ ¬Unnamed p q) := by
  refine ⟨?_, fun a b ha hb => ?_⟩
  · rw [isSome_ofPath hp, storedName]
    split
    · rfl
    · rw [List.length_append, List.length_singleton]
      omega
  · have hsa := stores_of_ofPath hp ha
    have hsb := stores_of_ofPath hq hb
    refine ⟨hsa.insert_eq_iff, fun name hname => ?_, ?_, ?_⟩
    · subst hname
      exact hsa.insert_abstract
    all_goals by_cases hun : Unnamed p q
    · rw [Address.eq_eq, hsa.key_unnamed hsb hun, Std.compare_self]
      simp [hun]
    · rw [Address.eq_eq, hsa.compare_key hsb hun, Ordering.isEq_iff_eq_eq, Std.compare_eq_iff_eq]
      simp [hun]
    · rw [Address.lt_eq, hsa.key_unnamed hsb hun, Std.compare_self]
      simp [hun]
    · rw [Address.lt_eq, hsa.compare_key hsb hun, Ordering.isLT_iff_eq_lt]
      simp [hun]

/-- The path `/tmp/s`, and the abstract name `s`, which comes before it. -/
theorem unixAddress_ofPath_example : ∃ a b, ofPath (ascii "/tmp/s") = some a ∧
    ofPath (0 :: ascii "s") = some b ∧
      (Address.unix a).toString .little = ascii "/tmp/s" ∧
        (Address.unix b).lt .little (.unix a) = true := by
  obtain ⟨hroom, hboth⟩ := unixAddress_ofPath (p := ascii "/tmp/s") (q := 0 :: ascii "s") .little
    (by decide) (by decide)
  obtain ⟨hroom', hboth'⟩ := unixAddress_ofPath (p := 0 :: ascii "s") (q := ascii "/tmp/s") .little
    (by decide) (by decide)
  obtain ⟨a, ha⟩ := Option.isSome_iff_exists.mp (hroom.mpr (by decide))
  obtain ⟨b, hb⟩ := Option.isSome_iff_exists.mp (hroom'.mpr (by decide))
  refine ⟨a, b, ha, hb, (hboth a b ha hb).1.mpr (by decide), ?_⟩
  exact (hboth' b a hb ha).2.2.2.mpr ⟨by decide, by simp [Unnamed, ascii]⟩

end CppServerFramework.Socket

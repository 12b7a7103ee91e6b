import CppServerFramework.Socket.AddressOrder
import CppServerFramework.Socket.HostLookup
import CppServerFramework.Socket.Ipv6Text

/-!
# Looking up what an address is written as

`insert` of the addresses (`socket/ipaddress.cpp`), and `Address::Lookup` with the two functions
that take one of its results (`ipaddress.cpp:91-187`).  `getaddrinfo` is a parameter.
-/

namespace CppServerFramework.Socket

open HTTP (Bytes ascii decimal decimalValue)

/-! ## Addresses as texts -/

namespace IPv4Address

variable (host : Endian) (a : IPv4Address)

/-- `IPv4Address(address, port)` (`ipaddress.cpp:319-324`). -/
def ofNumber (address : BitVec 32) (port : BitVec 16) : IPv4Address :=
  ⟨afInet, byteswapOnLittleEndian16 host port, byteswapOnLittleEndian host address⟩

/-- The four numbers that are written. -/
def octets : List Nat :=
  let addr := a.number host
  [((addr >>> 24) &&& 0xff#32).toNat, ((addr >>> 16) &&& 0xff#32).toNat,
    ((addr >>> 8) &&& 0xff#32).toNat, (addr &&& 0xff#32).toNat]

/-- `getPort` (`ipaddress.cpp:376-378`). -/
def getPort : BitVec 16 := byteswapOnLittleEndian16 host a.sin_port

/-- `IPv4Address::insert` (`ipaddress.cpp:338-346`). -/
def insert : Bytes :=
  (ascii ".").intercalate ((a.octets host).map decimal) ++ ascii ":" ++
    decimal (a.getPort host).toNat

end IPv4Address

namespace IPv6Address

/-- `IPv6Address(address, port)` (`ipaddress.cpp:407-412`). -/
def ofBytes (host : Endian) (address : Vector (BitVec 8) 16) (port : BitVec 16) : IPv6Address :=
  ⟨afInet6, byteswapOnLittleEndian16 host port, address⟩

/-- `getPort` (`ipaddress.cpp:476-478`). -/
def getPort (host : Endian) (a : IPv6Address) : BitVec 16 :=
  byteswapOnLittleEndian16 host a.sin6_port

end IPv6Address

/-- `UnixAddress::insert` (`ipaddress.cpp:541-546`): a name that begins with a null byte goes up to
    the length of the address, any other up to a null byte. -/
def UnixAddress.insert (a : UnixAddress) : Bytes :=
  if 2 < a.m_length.toNat ∧ a.sun_path.toList.head? = some 0 then
    ascii "\\0" ++ (a.sun_path.toList.drop 1).take (a.m_length.toNat - 3)
  else a.sun_path.toList.takeWhile (· ≠ 0)

/-- `Address::toString` (`ipaddress.cpp:36-40`), with the `insert` of each class. -/
def Address.toString (host : Endian) : Address → Bytes
  | .ipv4 a _ => a.insert host
  | .ipv6 a _ _ => a.insert host
  | .unix a => a.insert
  | .unknown family _ => ascii "[UnknownAddress family=" ++ decimal family.toNat ++ ascii "]"

/-! ## Looking an address up -/

/-- What an `addrinfo` points to: the structure that its family says. -/
inductive SockAddr where
  | inet (m_addr : IPv4Address) (sin_zero : Vector UInt8 8) (h : m_addr.sin_family = afInet)
  | inet6 (m_addr : IPv6Address) (sin6_flowinfo sin6_scope_id : BitVec 32)
      (h : m_addr.sin6_family = afInet6)
  | other (sa_family : BitVec 16) (sa_data : Vector UInt8 14)
      (h : sa_family ≠ afInet ∧ sa_family ≠ afInet6)

/-- `Address::Create` (`ipaddress.cpp:70-88`). -/
def Address.create : SockAddr → Address
  | .inet m zero _ => .ipv4 m zero
  | .inet6 m flowinfo scope _ => .ipv6 m flowinfo scope
  | .other family data _ => .unknown family data

/-- `dynamic_pointer_cast<IPAddress>` does not give a null pointer. -/
def Address.isIPAddress : Address → Bool
  | .ipv4 _ _ | .ipv6 _ _ _ => true
  | .unix _ | .unknown _ _ => false

/-- `getaddrinfo(node, service, hints, ..)` with the family, the type and the protocol of the
    hints; `none` for an error. -/
abbrev GetAddrInfo := Bytes → Option Bytes → (family type protocol : Int) → Option (List SockAddr)

section
variable (getaddrinfo : GetAddrInfo) (name : Bytes) (family type protocol : Int)

/-- `Address::Lookup` (`ipaddress.cpp:91-166`) into an empty vector. -/
def Address.lookup : Option (List Address) :=
  match lookupPair name with
  | .refused => none
  | .handed node service =>
    (getaddrinfo node service family type protocol).map fun results => results.map Address.create

/-- `Address::LookupAny` (`ipaddress.cpp:168-174`). -/
def Address.lookupAny : Option Address :=
  (Address.lookup getaddrinfo name family type protocol).bind List.head?

/-- `Address::LookupAnyIPAddress` (`ipaddress.cpp:176-187`). -/
def Address.lookupAnyIPAddress : Option Address :=
  (Address.lookup getaddrinfo name family type protocol).bind fun result =>
    result.find? Address.isIPAddress

end

/-! ## Numbers in texts -/

/-- A number without leading zeros. -/
def readDecimal (text : Bytes) (bound : Nat) : Option Nat :=
  if text = decimal (decimalValue text) ∧ decimalValue text < bound then some (decimalValue text)
  else none

/-- Four numbers with dots between them. -/
def readDotted (text : Bytes) : Option (List Nat) :=
  ((text.splitOn 46).mapM fun part => readDecimal part 256).filter fun ns => ns.length = 4

/-- `getaddrinfo` does not look the text of an address and the number of a port up: it answers with
    that address first. -/
structure Numeric (host : Endian) (getaddrinfo : GetAddrInfo) (type protocol : Int) : Prop where
  ipv4 : ∀ (m : IPv4Address) (node service : Bytes) (family : Int) (h : m.sin_family = afInet),
    58 ∉ node → readDotted node = some (m.octets host) →
    readDecimal service 65536 = some (m.getPort host).toNat → family = 0 ∨ family = 2 →
    ∃ rest, getaddrinfo node (some service) family type protocol =
      some (.inet m (Vector.replicate 8 0) h :: rest)
  ipv6 : ∀ (m : IPv6Address) (node service : Bytes) (family : Int) (h : m.sin6_family = afInet6),
    58 ∈ node → expandGroups node = some m.groups →
    readDecimal service 65536 = some (m.getPort host).toNat → family = 0 ∨ family = 10 →
    ∃ rest, getaddrinfo node (some service) family type protocol = some (.inet6 m 0 0 h :: rest)

/-- An address that one of the constructors has made of an address and a port, for a family of
    hints that takes it. -/
inductive Address.Made (host : Endian) : Int → Address → Prop
  | ipv4 (address : BitVec 32) (port : BitVec 16) {family : Int} : family = 0 ∨ family = 2 →
    Made host family (.ipv4 (.ofNumber host address port) (Vector.replicate 8 0))
  | ipv6 (address : Vector (BitVec 8) 16) (port : BitVec 16) {family : Int} :
    family = 0 ∨ family = 10 → Made host family (.ipv6 (.ofBytes host address port) 0 0)

variable {host : Endian} {n : Nat} {b : UInt8}

theorem readDecimal_decimal {bound : Nat} (h : n < bound) :
    readDecimal (decimal n) bound = some n := by
  rw [readDecimal, HTTP.decimalValue_decimal, if_pos ⟨rfl, h⟩]

theorem digit_range (h : b ∈ decimal n) : 48 ≤ b.toNat ∧ b.toNat ≤ 57 := by
  have hdigit := HTTP.digit_of_mem_decimal h
  rwa [UInt8.le_iff_toNat_le, UInt8.le_iff_toNat_le] at hdigit

theorem mem_intercalate {sep : Bytes} {parts : List Bytes} (h : b ∈ sep.intercalate parts) :
    b ∈ sep ∨ ∃ part ∈ parts, b ∈ part := by
  induction parts with
  | nil => cases h
  | cons part parts ih =>
    cases parts with
    | nil =>
      rw [List.intercalate_singleton] at h
      exact Or.inr ⟨part, List.mem_cons_self, h⟩
    | cons part' parts =>
      rw [List.intercalate_cons_cons, List.append_assoc, List.mem_append, List.mem_append] at h
      rcases h with h | h | h
      · exact Or.inr ⟨part, List.mem_cons_self, h⟩
      · exact Or.inl h
      · refine (ih h).imp_right fun ⟨q, hq, hb⟩ => ⟨q, List.mem_cons_of_mem _ hq, hb⟩

/-! ## IPv4 -/

namespace IPv4Address

variable {a : IPv4Address}

/-- The numbers of an address with dots between them. -/
def dottedText (host : Endian) (a : IPv4Address) : Bytes :=
  (ascii ".").intercalate ((a.octets host).map decimal)

theorem octets_lt (host : Endian) (a : IPv4Address) : ∀ n ∈ a.octets host, n < 256 := by
  have hmask : ∀ v : BitVec 32, (v &&& 0xff#32).toNat < 256 := by
    intro v
    rw [BitVec.toNat_and]
    exact Nat.lt_of_le_of_lt Nat.and_le_right (by decide)
  intro n hn
  simp only [octets, List.mem_cons, List.not_mem_nil, or_false] at hn
  rcases hn with rfl | rfl | rfl | rfl <;> exact hmask _

/-- The bytes of the text are digits and dots. -/
theorem mem_dottedText (h : b ∈ a.dottedText host) : 46 ≤ b.toNat ∧ b.toNat ≤ 57 := by
  rcases mem_intercalate h with hb | ⟨part, hpart, hb⟩
  · have hdot : ascii "." = [46] := by decide
    rw [hdot, List.mem_singleton] at hb
    subst hb
    decide
  · obtain ⟨n, -, rfl⟩ := List.mem_map.mp hpart
    have := digit_range hb
    omega

theorem mapM_readDecimal {ns : List Nat} {bound : Nat} (h : ∀ n ∈ ns, n < bound) :
    (ns.map decimal).mapM (fun part => readDecimal part bound) = some ns := by
  induction ns with
  | nil => rfl
  | cons n ns ih =>
    rw [List.forall_mem_cons] at h
    simp [List.mapM_cons, readDecimal_decimal h.1, ih h.2]

theorem readDotted_dottedText (host : Endian) (a : IPv4Address) :
    readDotted (a.dottedText host) = some (a.octets host) := by
  have hsplit : (a.dottedText host).splitOn 46 = (a.octets host).map decimal := by
    have hdot : ascii "." = [46] := by decide
    rw [dottedText, hdot]
    refine List.splitOn_intercalate _ (fun part hpart hmem => ?_) (by simp [octets])
    obtain ⟨n, -, rfl⟩ := List.mem_map.mp hpart
    exact absurd (digit_range hmem).1 (by decide)
  rw [readDotted, hsplit, mapM_readDecimal (octets_lt host a)]
  rfl

theorem dottedText_ne_nil (host : Endian) (a : IPv4Address) : a.dottedText host ≠ [] := by
  intro hnil
  have hread := readDotted_dottedText host a
  rw [hnil] at hread
  cases hread

/-- The text is split at its colon. -/
theorem lookupPair_insert (host : Endian) (a : IPv4Address) :
    lookupPair (a.insert host) =
      .handed (a.dottedText host) (some (decimal (a.getPort host).toNat)) := by
  have hdotted : ∀ c ∈ a.dottedText host, 46 ≤ c.toNat ∧ c.toNat ≤ 57 := fun _ hc =>
    mem_dottedText hc
  have hport : ∀ c ∈ decimal (a.getPort host).toNat, 48 ≤ c.toNat ∧ c.toNat ≤ 57 := fun _ hc =>
    digit_range hc
  have htext : a.insert host =
      a.dottedText host ++ 58 :: decimal (a.getPort host).toNat := by
    rw [insert, ← dottedText, List.append_assoc]
    rfl
  have hcolon : 58 ∉ a.dottedText host := fun h => absurd (hdotted _ h).2 (by decide)
  have hcolon' : 58 ∉ decimal (a.getPort host).toNat := fun h => absurd (hport _ h).2 (by decide)
  have hcount : (a.insert host).count 58 = 1 := by rw [htext, count_colon hcolon hcolon']
  have hhead : (a.insert host).head? ≠ some 91 := by
    rw [htext, List.head?_append_of_ne_nil _ (dottedText_ne_nil host a)]
    exact fun h => absurd (hdotted _ (List.mem_of_head? h)).2 (by decide)
  have hzero : 0 ∉ a.insert host := by
    rw [htext, List.mem_append, List.mem_cons]
    rintro (h | h | h)
    · exact absurd (hdotted _ h).1 (by decide)
    · cases h
    · exact absurd (hport _ h).1 (by decide)
  have hnot : ¬Ambiguous (a.insert host) := by
    intro hamb
    cases hamb with
    | bare _ htwo => omega
    | behind n b rest _ _ _ heq _ => exact hhead (by rw [heq]; rfl)
  have hopen : ¬Bracketed (a.insert host) := by
    rintro ⟨n, rest, -, -, heq, -⟩
    exact hhead (by rw [heq]; rfl)
  exact (splitsHost_of_not_ambiguous hzero hnot).service _ _ (dottedText_ne_nil host a)
    (HTTP.decimal_ne_nil _) hcolon hcolon' htext hopen

end IPv4Address

/-! ## IPv6 -/

theorem mem_hexText (h : b ∈ hexText n) : b ≠ 0 ∧ b ≠ 93 := by
  by_cases hzero : n = 0
  · subst hzero
    have hb : b = 48 := by simpa [hexText] using h
    subst hb
    decide
  · rw [hexText_digits hzero, List.mem_map] at h
    obtain ⟨d, hd, rfl⟩ := h
    have hlt := digit_lt d hd
    interval_cases d <;> decide

theorem mem_joinGroups {gs : List Nat} (h : b ∈ joinGroups gs) : b ≠ 0 ∧ b ≠ 93 := by
  rcases mem_intercalate h with hb | ⟨part, hpart, hb⟩
  · rw [List.mem_singleton] at hb
    subst hb
    decide
  · obtain ⟨n, -, rfl⟩ := List.mem_map.mp hpart
    exact mem_hexText hb

namespace IPv6Address

variable {a : IPv6Address}

theorem mem_bracketText (h : b ∈ a.bracketText host) : b ≠ 0 ∧ b ≠ 93 := by
  rcases bracketText_cases host a with heq | ⟨left, zeros, right, -, heq⟩
  · rw [heq] at h
    exact mem_joinGroups h
  · rw [heq, List.mem_append, List.mem_cons, List.mem_cons] at h
    rcases h with h | rfl | rfl | h
    · exact mem_joinGroups h
    · decide
    · decide
    · exact mem_joinGroups h

theorem colon_mem_bracketText (host : Endian) (a : IPv6Address) : 58 ∈ a.bracketText host := by
  rcases bracketText_cases host a with heq | ⟨left, zeros, right, -, heq⟩
  · have hgroups : a.loadGroups host = a.loadGroup host 0 :: a.loadGroup host 1 ::
        (a.loadGroups host).drop 2 := rfl
    rw [heq, hgroups, List.map_cons, List.map_cons, joinGroups_cons_cons]
    exact List.mem_append_right _ List.mem_cons_self
  · rw [heq]
    exact List.mem_append_right _ List.mem_cons_self

/-- The text is split behind its brackets. -/
theorem lookupPair_insert (host : Endian) (a : IPv6Address) :
    lookupPair (a.insert host) =
      .handed (a.bracketText host) (some (decimal (a.getPort host).toNat)) := by
  have hport : 0 ∉ decimal (a.getPort host).toNat := fun h =>
    absurd (digit_range h).1 (by decide)
  have htext : a.insert host =
      91 :: (a.bracketText host ++ 93 :: 58 :: decimal (a.getPort host).toNat) := by
    simp [insert, getPort, show ascii "[" = [91] by decide, show ascii "]:" = [93, 58] by decide]
  have hzero : 0 ∉ 91 :: (a.bracketText host ++ 93 :: 58 :: decimal (a.getPort host).toNat) := by
    simpa [hport] using fun h => (mem_bracketText h).1 rfl
  have hlen := List.length_pos_iff.mpr (HTTP.decimal_ne_nil (a.getPort host).toNat)
  rw [htext, lookupPair_closed (List.ne_nil_of_mem (colon_mem_bracketText host a))
    (fun h => (mem_bracketText h).2 rfl) hzero]
  simp [hlen]

end IPv6Address

/-! ## The address that is found -/

theorem byteswap16_byteswap16 (v : BitVec 16) :
    byteswapOnLittleEndian16 host (byteswapOnLittleEndian16 host v) = v := by
  rw [byteswapOnLittleEndian16, byteswapOnLittleEndian16]
  split
  · exact bswap16_bswap16 v
  · rfl

section
variable {getaddrinfo : GetAddrInfo} {family type protocol : Int} {a : Address}

/-- The address that has been made is the first that `getaddrinfo` finds. -/
theorem Address.Made.lookup (hnumeric : Numeric host getaddrinfo type protocol)
    (hmade : a.Made host family) : a.isIPAddress = true ∧
      ∃ rest, Address.lookup getaddrinfo (a.toString host) family type protocol =
        some (a :: rest) := by
  cases hmade with
  | ipv4 address port hfamily =>
    have hcolon : 58 ∉ (IPv4Address.ofNumber host address port).dottedText host := fun h =>
      absurd (IPv4Address.mem_dottedText h).2 (by decide)
    have hport := readDecimal_decimal ((IPv4Address.ofNumber host address port).getPort host).isLt
    obtain ⟨rest, hrest⟩ := hnumeric.ipv4 _ _ _ family rfl hcolon
      (IPv4Address.readDotted_dottedText host _) hport hfamily
    refine ⟨rfl, rest.map Address.create, ?_⟩
    rw [Address.lookup, Address.toString, IPv4Address.lookupPair_insert]
    simp only [hrest, Option.map_some, List.map_cons, Address.create]
  | ipv6 address port hfamily =>
    have hport := readDecimal_decimal ((IPv6Address.ofBytes host address port).getPort host).isLt
    obtain ⟨rest, hrest⟩ := hnumeric.ipv6 _ _ _ family rfl
      (IPv6Address.colon_mem_bracketText host _) (IPv6Address.bracketText_expands host _).2
      hport hfamily
    refine ⟨rfl, rest.map Address.create, ?_⟩
    rw [Address.lookup, Address.toString, IPv6Address.lookupPair_insert]
    simp only [hrest, Option.map_some, List.map_cons, Address.create]

/-- What an IP address writes is looked up as that address, so that no other one writes the same. -/
theorem lookup_toString (hnumeric : Numeric host getaddrinfo type protocol)
    (hmade : a.Made host family) :
    Address.lookupAny getaddrinfo (a.toString host) family type protocol = some a ∧
      Address.lookupAnyIPAddress getaddrinfo (a.toString host) family type protocol = some a ∧
      ∀ b : Address, b.Made host family → b.toString host = a.toString host → b = a := by
  obtain ⟨hip, rest, hlookup⟩ := hmade.lookup hnumeric
  refine ⟨?_, ?_, fun b hb htext => ?_⟩
  · rw [Address.lookupAny, hlookup]
    rfl
  · rw [Address.lookupAnyIPAddress, hlookup, Option.bind_some, List.find?_cons, hip]
  · obtain ⟨-, rest', hlookup'⟩ := hb.lookup hnumeric
    rw [htext, hlookup] at hlookup'
    exact (List.cons.inj (Option.some.inj hlookup')).1.symm

end

/-! ## Texts of numbers only -/

/-- The number with these bytes, the first of them in front. -/
def numberOf (ns : List Nat) : BitVec 32 := BitVec.ofNat 32 (Nat.ofDigits 256 ns.reverse)

/-- The bytes of groups. -/
def bytesOf (gs : List Nat) : Vector (BitVec 8) 16 :=
  Vector.ofFn fun i => BitVec.ofNat 8
    (if i.val % 2 = 0 then gs[i.val / 2]?.getD 0 / 256 else gs[i.val / 2]?.getD 0 % 256)

/-- A `getaddrinfo` that knows no names. -/
def numericInfo (host : Endian) : GetAddrInfo := fun node service family _ _ =>
  (service.bind (readDecimal · 65536)).bind fun port =>
    if 58 ∈ node then
      if family = 0 ∨ family = 10 then
        (expandGroups node).map fun gs =>
          [.inet6 (.ofBytes host (bytesOf gs) (BitVec.ofNat 16 port)) 0 0 rfl]
      else none
    else if family = 0 ∨ family = 2 then
      (readDotted node).map fun ns =>
        [.inet (.ofNumber host (numberOf ns) (BitVec.ofNat 16 port)) (Vector.replicate 8 0) rfl]
    else none

theorem numberOf_octets (host : Endian) (a : IPv4Address) :
    numberOf (a.octets host) = a.number host := by
  apply BitVec.eq_of_toNat_eq
  have hlt := (a.number host).isLt
  have hmask : ∀ n : Nat, n &&& 255 = n % 256 := fun n => Nat.and_two_pow_sub_one_eq_mod n 8
  simp only [numberOf, IPv4Address.octets, List.reverse_cons, List.reverse_nil, List.nil_append,
    List.cons_append, Nat.ofDigits_cons, Nat.ofDigits_nil, BitVec.toNat_and, BitVec.toNat_ofNat,
    BitVec.toNat_ushiftRight, Nat.shiftRight_eq_div_pow]
  simp only [show (255 % 2 ^ 32 : Nat) = 255 from rfl, hmask]
  omega

theorem bytesOf_groups (a : IPv6Address) : bytesOf a.groups = a.s6_addr := by
  apply Vector.ext
  intro i hi
  have hgroup : a.groups[i / 2]?.getD 0 = 256 * (a.s6_addr[2 * (i / 2)]?.getD 0).toNat +
      (a.s6_addr[2 * (i / 2) + 1]?.getD 0).toNat := by
    have hlt : i / 2 < 8 := by omega
    simp [IPv6Address.groups, hlt]
  have hlow := (a.s6_addr[2 * (i / 2) + 1]?.getD 0).isLt
  rw [bytesOf, Vector.getElem_ofFn]
  apply BitVec.eq_of_toNat_eq
  rw [hgroup, BitVec.toNat_ofNat]
  rcases Nat.mod_two_eq_zero_or_one i with hmod | hmod
  · have hindex : 2 * (i / 2) = i := by omega
    have hbyte : a.s6_addr[2 * (i / 2)]?.getD 0 = a.s6_addr[i] := by simp [hindex, hi]
    have hhigh := a.s6_addr[i].isLt
    rw [if_pos hmod, hbyte]
    omega
  · have hindex : 2 * (i / 2) + 1 = i := by omega
    have hbyte : a.s6_addr[2 * (i / 2) + 1]?.getD 0 = a.s6_addr[i] := by simp [hindex, hi]
    have hbound := a.s6_addr[i].isLt
    have hne : ¬i % 2 = 0 := by omega
    rw [if_neg hne, hbyte]
    omega

theorem numericInfo_numeric (host : Endian) (type protocol : Int) :
    Numeric host (numericInfo host) type protocol where
  ipv4 m node service family hinet hnode hdotted hport hfamily := by
    refine ⟨[], ?_⟩
    have hm : IPv4Address.ofNumber host (m.number host) (m.getPort host) = m := by
      rw [IPv4Address.ofNumber, IPv4Address.number, IPv4Address.getPort, byteswap_byteswap,
        byteswap16_byteswap16, ← hinet]
    rw [numericInfo, Option.bind_some, hport, Option.bind_some, if_neg hnode, if_pos hfamily,
      hdotted, Option.map_some]
    simp only [numberOf_octets, BitVec.ofNat_toNat, BitVec.setWidth_eq, hm]
  ipv6 m node service family hinet hnode hgroups hport hfamily := by
    refine ⟨[], ?_⟩
    have hm : IPv6Address.ofBytes host m.s6_addr (m.getPort host) = m := by
      rw [IPv6Address.ofBytes, IPv6Address.getPort, byteswap16_byteswap16, ← hinet]
    rw [numericInfo, Option.bind_some, hport, Option.bind_some, if_pos hnode, if_pos hfamily,
      hgroups, Option.map_some]
    simp only [bytesOf_groups, BitVec.ofNat_toNat, BitVec.setWidth_eq, hm]

/-- The address `2001:db8::1` with the port 8080. -/
def exampleIPv6 : IPv6Address :=
  .ofBytes .little #v[0x20, 1, 0x0d, 0xb8, 0, 0, 0, 0, 0, 0, 0, 0, 0, 0, 0, 1] 8080

theorem lookup_toString_example :
    (Address.ipv6 exampleIPv6 0 0).toString .little = ascii "[2001:db8::1]:8080" ∧
      Address.lookupAny (numericInfo .little) ((Address.ipv6 exampleIPv6 0 0).toString .little)
        0 1 0 = some (.ipv6 exampleIPv6 0 0) :=
  ⟨by decide, (lookup_toString (numericInfo_numeric .little 1 0)
    (.ipv6 #v[0x20, 1, 0x0d, 0xb8, 0, 0, 0, 0, 0, 0, 0, 0, 0, 0, 0, 1] 8080 (.inl rfl))).1⟩

end CppServerFramework.Socket

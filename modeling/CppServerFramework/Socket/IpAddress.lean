import CppServerFramework.Socket.ByteArrayTypedProps
import Mathlib.Data.List.Basic

/-!
# Subnets of IP addresses

`networkAddress`, `broadcastAddress` and `subnetMask` of `IPv4Address` and `IPv6Address`
(`socket/ipaddress.cpp`).  `CreateMask` sets the low bits, where a subnet has the high ones; a
prefix of 32 bits is a shift that is not defined, and one of 128 bits an index behind the array.
-/

namespace CppServerFramework.Socket

variable {w : Nat}

/-- `CreateMask` (`ipaddress.cpp:11-14`) on an unsigned type of `w` bits.  A type below `int` is
    promoted to it; a shift by the width of the type or more is undefined. -/
def createMask (w bits : Nat) : Option (BitVec w) :=
  let width := max w 32
  if bits < width then some ((~~~(~~~BitVec.ofNat width 0 <<< bits)).setWidth w) else none

/-- What a call returns, if what it does is defined. -/
inductive AddressPtr (α : Type) where
  | undefined
  | null
  | made (address : α)
  deriving DecidableEq, Repr

namespace AddressPtr

variable {α β : Type}

def ofOption (f : α → β) : Option α → AddressPtr β
  | none => .undefined
  | some x => .made (f x)

theorem ofOption_eq_made {f : α → β} {x : Option α} {b : β} :
    ofOption f x = .made b ↔ ∃ a, x = some a ∧ f a = b := by
  cases x <;> simp [ofOption]

end AddressPtr

theorem createMask_eq_none_iff {bits : Nat} : createMask w bits = none ↔ w ≤ bits ∧ 32 ≤ bits := by
  rw [createMask, ite_eq_right_iff]
  simp

/-- The bits of the mask, from the most significant one on. -/
theorem getMsbD_createMask {bits i : Nat} {m : BitVec w} (h : createMask w bits = some m)
    (hi : i < w) : m.getMsbD i = decide (w ≤ bits + i) := by
  simp only [createMask, Option.ite_none_right_eq_some, Option.some.injEq] at h
  obtain ⟨hlt, rfl⟩ := h
  have hle : w - 1 - i < max w 32 := by omega
  rw [BitVec.getMsbD_eq_getLsbD, BitVec.getLsbD_setWidth, BitVec.getLsbD_not,
    BitVec.getLsbD_shiftLeft, BitVec.getLsbD_not, BitVec.getLsbD_zero]
  simp only [hi, hle, decide_true, Bool.true_and, Bool.not_false, Bool.and_true,
    show w - 1 - i - bits < max w 32 by omega, show w - 1 - i < w by omega, Bool.not_not,
    decide_eq_decide]
  omega

/-! ## IPv4 -/

/-- `AF_INET` -/
def afInet : BitVec 16 := 2

/-- `byteswapOnLittleEndian` (`endians.h:60-78`) on a `uint32_t`. -/
def byteswapOnLittleEndian (host : Endian) (v : BitVec 32) : BitVec 32 :=
  if host = .little then bswap32 v else v

/-- The `sockaddr_in` of an `IPv4Address`, in network order. -/
structure IPv4Address where
  sin_family : BitVec 16
  sin_port : BitVec 16
  s_addr : BitVec 32
  deriving DecidableEq, Repr

namespace IPv4Address

variable (host : Endian) (a : IPv4Address) (prefix_len : Nat)

/-- The address as a number in the order of the host. -/
def number : BitVec 32 := byteswapOnLittleEndian host a.s_addr

/-- `broadcastAddress` (`ipaddress.cpp:348-355`). -/
def broadcastAddress : AddressPtr IPv4Address :=
  if 32 < prefix_len then .null
  else .ofOption
    (fun mask => { a with s_addr := a.s_addr ||| byteswapOnLittleEndian host (~~~mask) })
    (createMask 32 prefix_len)

/-- `networkAddress` (`ipaddress.cpp:358-365`). -/
def networkAddress : AddressPtr IPv4Address :=
  if 32 < prefix_len then .null
  else .ofOption (fun mask => { a with s_addr := a.s_addr &&& byteswapOnLittleEndian host mask })
    (createMask 32 prefix_len)

/-- `subnetMask` (`ipaddress.cpp:368-374`); the port of the mask is 0. -/
def subnetMask : AddressPtr IPv4Address :=
  .ofOption (fun mask => ⟨afInet, 0, byteswapOnLittleEndian host mask⟩) (createMask 32 prefix_len)

/-- The mask, the network and the broadcast address of a prefix. -/
structure SubnetArithmetic : Prop where
  mask : ∃ m, subnetMask host prefix_len = .made m ∧
    ∀ i < 32, (m.number host).getMsbD i = decide (i < prefix_len)
  network : ∃ n, a.networkAddress host prefix_len = .made n ∧
    (∀ i < 32, (n.number host).getMsbD i = (decide (i < prefix_len) && (a.number host).getMsbD i)) ∧
    n.sin_port = a.sin_port ∧ n.sin_family = a.sin_family ∧
    n.networkAddress host prefix_len = .made n
  broadcast : ∃ b, a.broadcastAddress host prefix_len = .made b ∧
    (∀ i < 32, (b.number host).getMsbD i = (decide (prefix_len ≤ i) || (a.number host).getMsbD i)) ∧
    b.sin_port = a.sin_port ∧ b.sin_family = a.sin_family ∧
    b.networkAddress host prefix_len = a.networkAddress host prefix_len

end IPv4Address

theorem byteswap_byteswap {host : Endian} (v : BitVec 32) :
    byteswapOnLittleEndian host (byteswapOnLittleEndian host v) = v := by
  rw [byteswapOnLittleEndian, byteswapOnLittleEndian]
  split
  · exact bswap32_bswap32 v
  · rfl

namespace IPv4Address

variable {host : Endian} {a : IPv4Address} {prefix_len : Nat}

theorem number_mk {family port : BitVec 16} {v : BitVec 32} :
    number host ⟨family, port, byteswapOnLittleEndian host v⟩ = v := byteswap_byteswap v

/-- The mask of the code is right only without a prefix. -/
theorem prefix_eq_zero_of_mask {m : IPv4Address} (h : subnetMask host prefix_len = .made m)
    (hbits : ∀ i < 32, (m.number host).getMsbD i = decide (i < prefix_len)) : prefix_len = 0 := by
  obtain ⟨mask, hmask, rfl⟩ := AddressPtr.ofOption_eq_made.mp h
  have hlt : prefix_len < 32 := by
    by_contra hge
    rw [createMask_eq_none_iff.mpr (by omega)] at hmask
    cases hmask
  have hfirst := hbits 0 (by decide)
  rw [number_mk, getMsbD_createMask hmask (by decide), decide_eq_decide] at hfirst
  omega

theorem createMask_zero : createMask 32 0 = some 0#32 := by decide

theorem byteswap_zero : byteswapOnLittleEndian host 0#32 = 0#32 := by cases host <;> decide

theorem byteswap_allOnes : byteswapOnLittleEndian host (BitVec.allOnes 32) = BitVec.allOnes 32 := by
  cases host <;> decide

theorem networkAddress_zero : a.networkAddress host 0 = .made { a with s_addr := 0#32 } := by
  simp [networkAddress, createMask_zero, AddressPtr.ofOption, byteswap_zero]

theorem broadcastAddress_zero :
    a.broadcastAddress host 0 = .made { a with s_addr := BitVec.allOnes 32 } := by
  rw [broadcastAddress, if_neg (by decide), createMask_zero, AddressPtr.ofOption, BitVec.not_zero,
    byteswap_allOnes, BitVec.or_allOnes]

theorem subnetArithmetic_zero : SubnetArithmetic host a 0 where
  mask := by
    refine ⟨⟨afInet, 0, 0#32⟩, by simp [subnetMask, createMask_zero, AddressPtr.ofOption,
      byteswap_zero], fun i hi => ?_⟩
    simp [number, byteswap_zero]
  network := by
    refine ⟨_, networkAddress_zero, fun i hi => ?_, rfl, rfl, networkAddress_zero⟩
    simp [number, byteswap_zero]
  broadcast := by
    refine ⟨_, broadcastAddress_zero, fun i hi => ?_, rfl, rfl, ?_⟩
    · rw [number, byteswap_allOnes, BitVec.getMsbD_allOnes]
      simp [hi]
    · rw [networkAddress_zero, networkAddress_zero]

end IPv4Address

/-- The subnets of an address are right for the empty prefix and for no other. -/
theorem ipv4_subnets_iff (host : Endian) (a : IPv4Address) (prefix_len : Nat) :
    a.SubnetArithmetic host prefix_len ↔ prefix_len = 0 := by
  constructor
  · intro h
    obtain ⟨m, hm, hbits⟩ := h.mask
    exact IPv4Address.prefix_eq_zero_of_mask hm hbits
  · rintro rfl
    exact IPv4Address.subnetArithmetic_zero

/-- 192.168.1.77: the network of a prefix of 24 bits is 0.168.1.77, and 32 bits are undefined. -/
theorem ipv4_subnets_reversed :
    let a : IPv4Address := ⟨afInet, 0, byteswapOnLittleEndian .little 0xC0A8014D#32⟩
    ((IPv4Address.subnetMask .little 24 =
          .made ⟨afInet, 0, byteswapOnLittleEndian .little 0x00FFFFFF#32⟩ ∧
        a.networkAddress .little 24 =
          .made ⟨afInet, 0, byteswapOnLittleEndian .little 0x00A8014D#32⟩) ∧
      IPv4Address.subnetMask .little 32 = .undefined) ∧
      ¬∀ prefix_len ≤ 32, a.SubnetArithmetic .little prefix_len := by
  refine ⟨by decide, fun h => ?_⟩
  obtain ⟨m, hm, hbits⟩ := (h 24 (by decide)).mask
  exact absurd (IPv4Address.prefix_eq_zero_of_mask hm hbits) (by decide)

/-! ## IPv6 -/

/-- `AF_INET6` -/
def afInet6 : BitVec 16 := 10

/-- The `sockaddr_in6` of an `IPv6Address`. -/
structure IPv6Address where
  sin6_family : BitVec 16
  sin6_port : BitVec 16
  s6_addr : Vector (BitVec 8) 16
  deriving DecidableEq, Repr

namespace IPv6Address

/-- `s6_addr[i] = f(s6_addr[i])`; an index behind the array is undefined. -/
def modify (bytes : Vector (BitVec 8) 16) (i : Nat) (f : BitVec 8 → BitVec 8) :
    Option (Vector (BitVec 8) 16) :=
  if h : i < 16 then some (bytes.set i (f bytes[i])) else none

/-- `s6_addr[i] = 0xff` for every `i` of `indices`, in order. -/
def fill (bytes : Vector (BitVec 8) 16) (indices : List Nat) : Option (Vector (BitVec 8) 16) :=
  indices.foldlM (fun bytes i => modify bytes i fun _ => 0xff) bytes

variable (a : IPv6Address) (prefix_len : Nat)

/-- `broadcastAddress` (`ipaddress.cpp:450-457`). -/
def broadcastAddress : AddressPtr IPv6Address :=
  .ofOption (fun s6_addr => { a with s6_addr }) do
    let mask ← createMask 8 (prefix_len % 8)
    let bytes ← modify a.s6_addr (prefix_len / 8) (· ||| ~~~mask)
    fill bytes (List.range' (prefix_len / 8 + 1) (16 - (prefix_len / 8 + 1)))

/-- `networkAddress` (`ipaddress.cpp:459-463`). -/
def networkAddress : AddressPtr IPv6Address :=
  .ofOption (fun s6_addr => { a with s6_addr }) do
    let mask ← createMask 8 (prefix_len % 8)
    modify a.s6_addr (prefix_len / 8) (· &&& mask)

/-- `subnetMask` (`ipaddress.cpp:465-474`). -/
def subnetMask : AddressPtr IPv6Address :=
  .ofOption (fun s6_addr => ⟨afInet6, 0, s6_addr⟩) do
    let mask ← createMask 8 (prefix_len % 8)
    let bytes ← modify (Vector.replicate 16 0) (prefix_len / 8) fun _ => mask
    fill bytes (List.range (prefix_len / 8))

/-- The bits of the address, the most significant one first. -/
def bit (i : Nat) : Bool := (a.s6_addr[i / 8]?.getD 0).getMsbD (i % 8)

/-- The mask, the network and the broadcast address of a prefix, and no address where the prefix
    is longer than an address. -/
structure SubnetArithmetic : Prop where
  mask : prefix_len ≤ 128 → ∃ m, subnetMask prefix_len = .made m ∧
    ∀ i < 128, m.bit i = decide (i < prefix_len)
  network : prefix_len ≤ 128 → ∃ n, a.networkAddress prefix_len = .made n ∧
    ∀ i < 128, n.bit i = (decide (i < prefix_len) && a.bit i)
  broadcast : prefix_len ≤ 128 → ∃ b, a.broadcastAddress prefix_len = .made b ∧
    ∀ i < 128, b.bit i = (decide (prefix_len ≤ i) || a.bit i)
  refused : 128 < prefix_len → subnetMask prefix_len = .null ∧
    a.networkAddress prefix_len = .null ∧ a.broadcastAddress prefix_len = .null

/-- Whole bytes, not all of them, and nothing behind the first byte that is not in the prefix. -/
structure WholeBytes : Prop where
  lt : prefix_len < 128
  dvd : prefix_len % 8 = 0
  zero : ∀ i, (h : i < 16) → prefix_len / 8 < i → a.s6_addr[i] = 0

variable {a : IPv6Address} {prefix_len : Nat} {bytes bytes' : Vector (BitVec 8) 16} {i j : Nat}

theorem getElem_modify {f : BitVec 8 → BitVec 8} (h : modify bytes i f = some bytes')
    (hj : j < 16) : bytes'[j] = if j = i then f bytes[j] else bytes[j] := by
  simp only [modify, Option.dite_none_right_eq_some, Option.some.injEq] at h
  obtain ⟨hi, rfl⟩ := h
  rw [Vector.getElem_set]
  grind

/-- Filling indices of the array sets those bytes. -/
theorem fill_spec (bytes : Vector (BitVec 8) 16) (indices : List Nat) (h : ∀ i ∈ indices, i < 16) :
    ∃ bytes', fill bytes indices = some bytes' ∧ ∀ j, (hj : j < 16) →
      bytes'[j] = if j ∈ indices then 0xff else bytes[j] := by
  induction indices generalizing bytes with
  | nil => exact ⟨bytes, rfl, fun j hj => by simp⟩
  | cons i indices ih =>
    obtain ⟨hi, hrest⟩ := List.forall_mem_cons.mp h
    have hmodify : modify bytes i (fun _ => 0xff) = some (bytes.set i 0xff) := dif_pos hi
    obtain ⟨bytes', hfill, hbytes⟩ := ih (bytes.set i 0xff) hrest
    refine ⟨bytes', ?_, fun j hj => ?_⟩
    · rw [fill, List.foldlM_cons, hmodify]
      exact hfill
    · rw [hbytes j hj, getElem_modify hmodify hj]
      grind

theorem bit_eq {i : Nat} (h : i < 128) : a.bit i = a.s6_addr[i / 8].getMsbD (i % 8) := by
  rw [bit, Vector.getElem?_eq_getElem (by omega), Option.getD_some]

/-- A prefix of 128 bits or more is an index behind the array. -/
theorem modify_div_eq_none {f : BitVec 8 → BitVec 8} (h : 128 ≤ prefix_len) :
    modify bytes (prefix_len / 8) f = none := dif_neg (by omega)

theorem modify_div_of_lt (bytes : Vector (BitVec 8) 16) (f : BitVec 8 → BitVec 8)
    (h : prefix_len < 128) :
    ∃ bytes', modify bytes (prefix_len / 8) f = some bytes' := ⟨_, dif_pos (by omega)⟩

theorem subnetMask_undefined (h : 128 ≤ prefix_len) : subnetMask prefix_len = .undefined := by
  rw [subnetMask]
  cases createMask 8 (prefix_len % 8) with
  | none => rfl
  | some mask => simp [modify_div_eq_none h, AddressPtr.ofOption]

theorem subnetMask_made {mask : BitVec 8} (hmask : createMask 8 (prefix_len % 8) = some mask)
    (h : prefix_len < 128) : ∃ m, subnetMask prefix_len = .made m ∧ ∀ j, (hj : j < 16) →
      m.s6_addr[j] =
        if j < prefix_len / 8 then 0xff else if j = prefix_len / 8 then mask else 0 := by
  obtain ⟨bytes, hbytes⟩ := modify_div_of_lt (Vector.replicate 16 0) (fun _ => mask) h
  obtain ⟨bytes', hfill, hget⟩ := fill_spec bytes (List.range (prefix_len / 8))
    (by simp only [List.mem_range]; omega)
  refine ⟨⟨afInet6, 0, bytes'⟩, ?_, fun j hj => ?_⟩
  · rw [subnetMask, hmask]
    simp only [Option.bind_eq_bind, Option.bind_some, hbytes, hfill, AddressPtr.ofOption]
  · rw [hget j hj, getElem_modify hbytes hj]
    simp

theorem networkAddress_made {mask : BitVec 8} (hmask : createMask 8 (prefix_len % 8) = some mask)
    (h : prefix_len < 128) : ∃ n, a.networkAddress prefix_len = .made n ∧ ∀ j, (hj : j < 16) →
      n.s6_addr[j] = if j = prefix_len / 8 then a.s6_addr[j] &&& mask else a.s6_addr[j] := by
  obtain ⟨bytes, hbytes⟩ := modify_div_of_lt a.s6_addr (· &&& mask) h
  refine ⟨{ a with s6_addr := bytes }, ?_, fun j hj => getElem_modify hbytes hj⟩
  simp [networkAddress, hmask, hbytes, AddressPtr.ofOption]

theorem broadcastAddress_made {mask : BitVec 8} (hmask : createMask 8 (prefix_len % 8) = some mask)
    (h : prefix_len < 128) : ∃ b, a.broadcastAddress prefix_len = .made b ∧ ∀ j, (hj : j < 16) →
      b.s6_addr[j] = if prefix_len / 8 < j then 0xff
        else if j = prefix_len / 8 then a.s6_addr[j] ||| ~~~mask else a.s6_addr[j] := by
  obtain ⟨bytes, hbytes⟩ := modify_div_of_lt a.s6_addr (· ||| ~~~mask) h
  obtain ⟨bytes', hfill, hget⟩ := fill_spec bytes
    (List.range' (prefix_len / 8 + 1) (16 - (prefix_len / 8 + 1)))
    (by simp only [List.mem_range'_1]; omega)
  refine ⟨{ a with s6_addr := bytes' }, ?_, fun j hj => ?_⟩
  · rw [broadcastAddress, hmask]
    simp only [Option.bind_eq_bind, Option.bind_some, hbytes, hfill, AddressPtr.ofOption]
  · have hmem : j ∈ List.range' (prefix_len / 8 + 1) (16 - (prefix_len / 8 + 1)) ↔
        prefix_len / 8 < j := by
      rw [List.mem_range'_1]
      omega
    rw [hget j hj, getElem_modify hbytes hj]
    simp only [hmem]

theorem exists_createMask (bits : Nat) : ∃ mask, createMask 8 (bits % 8) = some mask :=
  Option.ne_none_iff_exists'.mp fun h => by
    have := createMask_eq_none_iff.mp h
    omega

/-- A prefix whose mask is right is shorter than an address and made of whole bytes. -/
theorem wholeBytes_of_mask {m : IPv6Address} (h : subnetMask prefix_len = .made m)
    (hbits : ∀ i < 128, m.bit i = decide (i < prefix_len)) :
    prefix_len < 128 ∧ prefix_len % 8 = 0 := by
  have hlt : prefix_len < 128 := by
    by_contra hge
    rw [subnetMask_undefined (by omega)] at h
    cases h
  obtain ⟨mask, hmask⟩ := exists_createMask prefix_len
  obtain ⟨m', hm', hget⟩ := subnetMask_made hmask hlt
  rw [h] at hm'
  cases hm'
  -- the first bit of the byte that the prefix ends in
  have hfirst := hbits (8 * (prefix_len / 8)) (by omega)
  have hbyte : 8 * (prefix_len / 8) / 8 = prefix_len / 8 := by omega
  have hstart : 8 * (prefix_len / 8) % 8 = 0 := by omega
  rw [bit_eq (by omega)] at hfirst
  simp only [hbyte, hstart, hget _ (show prefix_len / 8 < 16 by omega), lt_irrefl, if_false,
    if_true, getMsbD_createMask hmask (show 0 < 8 by decide), decide_eq_decide] at hfirst
  omega

theorem zero_of_network {n : IPv6Address} (hlt : prefix_len < 128)
    (h : a.networkAddress prefix_len = .made n)
    (hbits : ∀ i < 128, n.bit i = (decide (i < prefix_len) && a.bit i)) {j : Nat} (hj : j < 16)
    (hbehind : prefix_len / 8 < j) : a.s6_addr[j] = 0 := by
  obtain ⟨mask, hmask⟩ := exists_createMask prefix_len
  obtain ⟨n', hn', hget⟩ := networkAddress_made (a := a) hmask hlt
  rw [h] at hn'
  cases hn'
  apply BitVec.eq_of_getMsbD_eq
  intro k hk
  have hbit := hbits (8 * j + k) (by omega)
  have hbyte : (8 * j + k) / 8 = j := by omega
  have hplace : (8 * j + k) % 8 = k := by omega
  rw [bit_eq (by omega)] at hbit
  simp only [hbyte, hplace, hget j hj, if_neg (show j ≠ prefix_len / 8 by omega),
    show ¬8 * j + k < prefix_len by omega, decide_false, Bool.false_and] at hbit
  rw [hbit]
  simp

theorem WholeBytes.subnetArithmetic (h : a.WholeBytes prefix_len) :
    a.SubnetArithmetic prefix_len := by
  have hlt := h.lt
  have hdvd := h.dvd
  have hmask : createMask 8 (prefix_len % 8) = some 0 := by
    rw [hdvd]
    decide
  have hones : ∀ i, (0xff : BitVec 8).getMsbD (i % 8) = true := by
    intro i
    have hplace := Nat.mod_lt i (show 0 < 8 by decide)
    generalize i % 8 = k at hplace
    interval_cases k <;> decide
  constructor
  · intro _
    obtain ⟨m, hm, hget⟩ := subnetMask_made hmask hlt
    refine ⟨m, hm, fun i hi => ?_⟩
    rw [bit_eq hi, hget _ (by omega)]
    by_cases hin : i < prefix_len
    · rw [if_pos (by omega), hones, decide_eq_true hin]
    · rw [if_neg (by omega), ite_self, BitVec.ofNat_eq_ofNat, BitVec.getMsbD_zero,
        decide_eq_false hin]
  · intro _
    obtain ⟨n, hn, hget⟩ := networkAddress_made (a := a) hmask hlt
    refine ⟨n, hn, fun i hi => ?_⟩
    rw [bit_eq hi, bit_eq hi, hget _ (by omega)]
    by_cases hin : i < prefix_len
    · rw [if_neg (by omega), decide_eq_true hin, Bool.true_and]
    · have hbyte : (if i / 8 = prefix_len / 8 then a.s6_addr[i / 8] &&& 0
          else a.s6_addr[i / 8]) = 0 := by
        split
        · simp
        · exact h.zero _ (by omega) (by omega)
      rw [hbyte, BitVec.ofNat_eq_ofNat, BitVec.getMsbD_zero, decide_eq_false hin, Bool.false_and]
  · intro _
    obtain ⟨b, hb, hget⟩ := broadcastAddress_made (a := a) hmask hlt
    refine ⟨b, hb, fun i hi => ?_⟩
    rw [bit_eq hi, bit_eq hi, hget _ (by omega)]
    by_cases hin : prefix_len ≤ i
    · have hbyte : (if prefix_len / 8 < i / 8 then 0xff
          else if i / 8 = prefix_len / 8 then a.s6_addr[i / 8] ||| ~~~0 else a.s6_addr[i / 8]) =
            0xff := by
        split
        · rfl
        · rw [if_pos (by omega)]
          exact BitVec.or_allOnes
      rw [hbyte, hones, decide_eq_true hin, Bool.true_or]
    · rw [if_neg (by omega), if_neg (by omega), decide_eq_false hin, Bool.false_or]
  · intro hgt
    omega

end IPv6Address

/-- The subnets of an address are right exactly for a prefix of whole bytes, less than all, with
    nothing behind the byte that follows. -/
theorem ipv6_subnets_iff (a : IPv6Address) (prefix_len : Nat) :
    a.SubnetArithmetic prefix_len ↔ a.WholeBytes prefix_len := by
  refine ⟨fun h => ?_, fun h => h.subnetArithmetic⟩
  have hle : prefix_len ≤ 128 := by
    by_contra hgt
    have hnull := (h.refused (by omega)).1
    rw [IPv6Address.subnetMask_undefined (by omega)] at hnull
    cases hnull
  obtain ⟨m, hm, hbits⟩ := h.mask hle
  obtain ⟨hlt, hdvd⟩ := IPv6Address.wholeBytes_of_mask hm hbits
  obtain ⟨n, hn, hbits⟩ := h.network hle
  exact ⟨hlt, hdvd, fun j hj hbehind => IPv6Address.zero_of_network hlt hn hbits hj hbehind⟩

/-- Ten bits have the mask ff03, not ffc0; sixteen bits leave the interface in the network. -/
theorem ipv6_subnets_kept :
    let a : IPv6Address := ⟨afInet6, 0, #v[0x20, 1, 0xd, 0xb8, 0, 0, 0, 0, 0, 0, 0, 0, 0, 0, 0, 1]⟩
    ((IPv6Address.subnetMask 10 =
          .made ⟨afInet6, 0, #v[0xff, 3, 0, 0, 0, 0, 0, 0, 0, 0, 0, 0, 0, 0, 0, 0]⟩ ∧
        a.networkAddress 16 = .made { a with
          s6_addr := #v[0x20, 1, 0, 0xb8, 0, 0, 0, 0, 0, 0, 0, 0, 0, 0, 0, 1] }) ∧
      a.broadcastAddress 128 = .undefined) ∧
      ¬∀ prefix_len ≤ 128, a.SubnetArithmetic prefix_len := by
  refine ⟨by decide, fun h => ?_⟩
  obtain ⟨m, hm, hbits⟩ := (h 10 (by decide)).mask (by decide)
  exact absurd (IPv6Address.wholeBytes_of_mask hm hbits).2 (by decide)

end CppServerFramework.Socket

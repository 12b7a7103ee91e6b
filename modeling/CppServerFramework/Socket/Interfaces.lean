import CppServerFramework.Misc.MultiMap
import CppServerFramework.Socket.AddressText

/-!
# The addresses of the interfaces

`CountBytes` and the two `GetInterfaceAddresses` (`socket/ipaddress.cpp:20-27`, `190-266`), where
`getifaddrs` is a parameter.
-/

namespace CppServerFramework.Socket

open HTTP (Bytes ascii)

variable {w : Nat}

theorem toNat_pos_of_ne_zero {value : BitVec w} (hne : value ≠ 0) : 0 < value.toNat :=
  Nat.pos_of_ne_zero fun h => hne (BitVec.eq_of_toNat_eq (by simpa using h))

theorem toNat_and_sub_one {value : BitVec w} (hne : value ≠ 0) :
    (value &&& (value - 1)).toNat = value.toNat &&& (value.toNat - 1) := by
  have hpos := toNat_pos_of_ne_zero hne
  have hlt := value.isLt
  have hone : (1 : BitVec w).toNat = 1 := by
    have hw : w ≠ 0 := by
      rintro rfl
      exact hne (Subsingleton.elim _ _)
    exact Nat.mod_eq_of_lt (Nat.one_lt_two_pow hw)
  have hle : 1 ≤ value := by
    rw [BitVec.le_def, hone]
    exact hpos
  rw [BitVec.toNat_and, BitVec.toNat_sub_of_le hle, hone]

/-- `CountBytes` (`ipaddress.cpp:20-27`). -/
def countBytes (value : BitVec w) : Nat :=
  if value = 0 then 0 else countBytes (value &&& (value - 1)) + 1
termination_by value.toNat
decreasing_by
  rename_i hne
  have hpos := toNat_pos_of_ne_zero hne
  rw [toNat_and_sub_one hne]
  exact Nat.lt_of_le_of_lt Nat.and_le_right (by omega)

/-- What the two casts of a netmask point to. -/
structure Netmask where
  s_addr : BitVec 32
  s6_addr : Vector (BitVec 8) 16
  deriving DecidableEq

/-- A `struct ifaddrs`, whose pointers may be null. -/
structure Ifaddrs where
  ifa_name : Bytes
  ifa_addr : Option SockAddr
  ifa_netmask : Option Netmask

/-- `sa_family` -/
def SockAddr.family : SockAddr → Int
  | .inet _ _ _ => 2
  | .inet6 _ _ _ _ => 10
  | .other sa_family _ _ => sa_family.toNat

/-- The body of the loop (`ipaddress.cpp:199-229`): the entry that it inserts, if it inserts one;
    `none` where it reads through a null pointer. -/
def Ifaddrs.entry (family : Int) (next : Ifaddrs) : Option (Option (Address × Nat)) :=
  match next.ifa_addr with
  | none => none
  | some addr =>
    if family ≠ 0 ∧ family ≠ addr.family then some none
    else
      match addr with
      | .inet _ _ _ => next.ifa_netmask.map fun netmask =>
          some (Address.create addr, countBytes netmask.s_addr)
      | .inet6 _ _ _ _ => next.ifa_netmask.map fun netmask =>
          some (Address.create addr, (netmask.s6_addr.toList.map countBytes).sum)
      | .other _ _ _ => some none

/-- The order of the names. -/
def nameLess (i j : Bytes) : Bool := i < j

/-- One turn of the loop. -/
def collect (family : Int) (result : List (Bytes × Address × Nat)) (next : Ifaddrs) :
    Option (List (Bytes × Address × Nat)) :=
  (next.entry family).map fun
    | none => result
    | some entry => MultiMap.insert nameLess (next.ifa_name, entry) result

section
variable (getifaddrs : Option (List Ifaddrs))

/-- `GetInterfaceAddresses(result, family)` (`ipaddress.cpp:190-241`). -/
def getInterfaceAddresses (result : List (Bytes × Address × Nat)) (family : Int) :
    Option (Bool × List (Bytes × Address × Nat)) :=
  match getifaddrs with
  | none => some (false, result)
  | some results => (results.foldlM (collect family) result).map fun result => (true, result)

/-- `GetInterfaceAddresses(result, iface, family)` (`ipaddress.cpp:244-266`). -/
def getInterfaceAddressesOf (result : List (Address × Nat)) (iface : Bytes) (family : Int) :
    Option (Bool × List (Address × Nat)) :=
  if iface.isEmpty ∨ iface = ascii "*" then
    some (true, if family = 10 ∨ family = 0 then
      result ++ [(.ipv6 ⟨afInet6, 0, Vector.replicate 16 0⟩ 0 0, 0)] else result)
  else
    match getInterfaceAddresses getifaddrs [] family with
    | none => none
    | some (false, _) => some (false, result)
    | some (true, results) =>
      some (true, result ++ (MultiMap.equalRange nameLess iface results).map Prod.snd)

end

/-! ## The number of ones -/

/-- Taking the lowest one away leaves the others. -/
theorem sum_digits_and_sub_one {n : Nat} (hn : n ≠ 0) :
    (Nat.digits 2 (n &&& (n - 1))).sum + 1 = (Nat.digits 2 n).sum := by
  have hdigits : ∀ m : Nat, (Nat.digits 2 m).sum = m % 2 + (Nat.digits 2 (m / 2)).sum := by
    intro m
    rcases Nat.eq_zero_or_pos m with rfl | hm
    · rfl
    · rw [Nat.digits_def' (by decide) hm, List.sum_cons]
  induction n using Nat.strong_induction_on with
  | _ n ih =>
    have hmod : (n &&& (n - 1)) % 2 = 0 := by
      have hnot := mt Nat.and_mod_two_eq_one.mp (show ¬(n % 2 = 1 ∧ (n - 1) % 2 = 1) by omega)
      omega
    rw [hdigits n, hdigits (n &&& (n - 1)), hmod, Nat.and_div_two]
    rcases Nat.mod_two_eq_zero_or_one n with heven | hodd
    · have hhalf : (n - 1) / 2 = n / 2 - 1 := by omega
      rw [hhalf, heven, Nat.zero_add, Nat.zero_add, ih (n / 2) (by omega) (by omega)]
    · have hhalf : (n - 1) / 2 = n / 2 := by omega
      rw [hhalf, hodd, Nat.and_self, Nat.zero_add, Nat.add_comm]

theorem countBytes_eq (value : BitVec w) :
    countBytes value = (Nat.digits 2 value.toNat).sum := by
  induction hn : value.toNat using Nat.strong_induction_on generalizing value with
  | _ n ih =>
    rw [countBytes]
    split
    · next hzero =>
      subst hzero
      rw [← hn]
      simp
    · next hne =>
      have hpos := toNat_pos_of_ne_zero hne
      have hlt : (value &&& (value - 1)).toNat < n := by
        rw [toNat_and_sub_one hne, ← hn]
        exact Nat.lt_of_le_of_lt Nat.and_le_right (by omega)
      rw [ih _ hlt _ rfl, toNat_and_sub_one hne, hn, sum_digits_and_sub_one (by omega)]

/-! ## Prefixes -/

/-- The mask of a prefix of `k` bits. -/
def Netmask.ofLength (host : Endian) (k : Nat) : Netmask where
  s_addr := byteswapOnLittleEndian host (BitVec.allOnes 32 <<< (32 - k))
  s6_addr := Vector.ofFn fun i => BitVec.allOnes 8 <<< (8 - min 8 (k - 8 * i.val))

theorem countBytes_inet (host : Endian) {k : Nat} (hk : k ≤ 32) :
    countBytes (Netmask.ofLength host k).s_addr = k := by
  rw [countBytes_eq]
  cases host with
  | little =>
    have hall : ∀ k ≤ 32, (Nat.digits 2 (Netmask.ofLength .little k).s_addr.toNat).sum = k := by
      decide
    exact hall k hk
  | big =>
    have hall : ∀ k ≤ 32, (Nat.digits 2 (Netmask.ofLength .big k).s_addr.toNat).sum = k := by
      decide
    exact hall k hk

theorem countBytes_inet6 (host : Endian) {k : Nat} (hk : k ≤ 128) :
    ((Netmask.ofLength host k).s6_addr.toList.map countBytes).sum = k := by
  have hbyte : ∀ j ≤ 8, countBytes (BitVec.allOnes 8 <<< (8 - j)) = j := by
    intro j hj
    rw [countBytes_eq]
    have hall : ∀ j ≤ 8, (Nat.digits 2 (BitVec.allOnes 8 <<< (8 - j)).toNat).sum = j := by decide
    exact hall j hj
  have hlist : (Netmask.ofLength host k).s6_addr.toList.map countBytes =
      List.ofFn fun i : Fin 16 => min 8 (k - 8 * i.val) := by
    rw [Netmask.ofLength, Vector.toList_ofFn, List.map_ofFn]
    exact congrArg List.ofFn (funext fun i => hbyte _ (Nat.min_le_left _ _))
  have hsum : ∀ k ≤ 128, (List.ofFn fun i : Fin 16 => min 8 (k - 8 * i.val)).sum = k := by decide
  rw [hlist, hsum k hk]

/-! ## What is found -/

theorem nameLess_totalOrder : MultiMap.TotalOrder nameLess where
  irrefl i := by simp [nameLess]
  trans i j k hij hjk := by
    simp only [nameLess, decide_eq_true_eq] at *
    exact List.lt_trans hij hjk
  total i j hij hji := by
    simp only [nameLess, decide_eq_false_iff_not] at *
    exact List.le_antisymm (List.not_lt.mp hji) (List.not_lt.mp hij)

variable {family : Int} {results : List Ifaddrs} {result out : List (Bytes × Address × Nat)}

theorem foldlM_collect_eq_none :
    results.foldlM (collect family) result = none ↔ ∃ a ∈ results, a.entry family = none := by
  induction results generalizing result with
  | nil => simp
  | cons a results ih =>
    rw [List.foldlM_cons, List.exists_mem_cons_iff]
    cases ha : a.entry family with
    | none => simp [collect, ha]
    | some e => simp [collect, ha, ih]

/-- The entries with one name, in the order of the interfaces. -/
theorem foldlM_collect (hs : MultiMap.Sorted nameLess result)
    (h : results.foldlM (collect family) result = some out) :
    MultiMap.Sorted nameLess out ∧ ∀ name, out.filter (·.1 = name) =
      result.filter (·.1 = name) ++ ((results.filter (·.ifa_name = name)).filterMap fun a =>
        (a.entry family).join).map fun e => (name, e) := by
  induction results generalizing result with
  | nil =>
    cases h
    exact ⟨hs, fun name => (List.append_nil _).symm⟩
  | cons a results ih =>
    rw [List.foldlM_cons] at h
    obtain ⟨next, hnext, hrest⟩ := Option.bind_eq_some_iff.mp h
    obtain ⟨e, he, rfl⟩ := Option.map_eq_some_iff.mp hnext
    cases e with
    | none =>
      obtain ⟨hsorted, hfilter⟩ := ih hs hrest
      refine ⟨hsorted, fun name => ?_⟩
      rw [hfilter, List.filter_cons]
      split
      · rw [List.filterMap_cons_none (by rw [he]; rfl)]
      · rfl
    | some e =>
      obtain ⟨hsorted, hfilter⟩ := ih (hs.insert nameLess_totalOrder) hrest
      refine ⟨hsorted, fun name => ?_⟩
      rw [hfilter, MultiMap.filter_insert nameLess_totalOrder hs]
      by_cases hname : a.ifa_name = name
      · have hjoin : (a.entry family).join = some e := by
          rw [he]
          rfl
        simp [hname, hjoin]
      · simp [hname]

/-- The number of ones in the mask of an address. -/
def Netmask.ones (netmask : Netmask) : Address → Nat
  | .ipv4 _ _ => (Nat.digits 2 netmask.s_addr.toNat).sum
  | .ipv6 _ _ _ => (netmask.s6_addr.toList.map fun b => (Nat.digits 2 b.toNat).sum).sum
  | .unix _ | .unknown _ _ => 0

/-- An address of the interface, and how much of it is the prefix. -/
structure Ifaddrs.Shows (a : Ifaddrs) (addr : Address) (n : Nat) : Prop where
  address : ∃ ifa_addr, a.ifa_addr = some ifa_addr ∧ addr = Address.create ifa_addr
  netmask : ∃ netmask, a.ifa_netmask = some netmask ∧ n = netmask.ones addr
  ipv4 : ∀ host k, k ≤ 32 → a.ifa_netmask = some (.ofLength host k) →
    (∃ m zero, addr = .ipv4 m zero) → n = k
  ipv6 : ∀ host k, k ≤ 128 → a.ifa_netmask = some (.ofLength host k) →
    (∃ m flowinfo scope, addr = .ipv6 m flowinfo scope) → n = k

/-- It has an IP address of the family that is asked for. -/
def Ifaddrs.wanted (family : Int) (a : Ifaddrs) : Bool :=
  a.ifa_addr.any fun addr =>
    (family = 0 ∨ family = addr.family) && (Address.create addr).isIPAddress

/-- A null pointer is read for the interface: it has no address, or no mask for an address that is
    wanted. -/
def Ifaddrs.ReadsNull (family : Int) (a : Ifaddrs) : Prop :=
  a.ifa_addr = none ∨ a.ifa_netmask = none ∧ a.wanted family = true

theorem Ifaddrs.entry_eq_none {a : Ifaddrs} : a.entry family = none ↔ a.ReadsNull family := by
  rw [Ifaddrs.entry, Ifaddrs.ReadsNull, Ifaddrs.wanted]
  cases haddr : a.ifa_addr with
  | none => simp
  | some ifa_addr =>
    have hwanted : (family ≠ 0 ∧ family ≠ ifa_addr.family) ↔
        ¬(family = 0 ∨ family = ifa_addr.family) := not_or.symm
    simp only [hwanted]
    by_cases hfamily : family = 0 ∨ family = ifa_addr.family
    · cases ifa_addr <;> simp [hfamily, Address.create, Address.isIPAddress]
    · cases ifa_addr <;> simp [hfamily]

/-- What the body of the loop inserts where it reads no null pointer. -/
theorem Ifaddrs.entry_of_not_readsNull {a : Ifaddrs} (h : ¬a.ReadsNull family) :
    if a.wanted family = true then
      ∃ e, a.entry family = some (some e) ∧ a.Shows e.1 e.2
    else a.entry family = some none := by
  obtain ⟨haddr, hmask⟩ := not_or.mp h
  obtain ⟨ifa_addr, haddr⟩ := Option.ne_none_iff_exists'.mp haddr
  rw [Ifaddrs.entry]
  simp only [haddr]
  by_cases hfamily : family = 0 ∨ family = ifa_addr.family
  · rw [if_neg (not_and_or.mpr (hfamily.imp not_not.mpr not_not.mpr))]
    cases ifa_addr with
    | inet m zero hm =>
      have hwanted : a.wanted family = true := by
        simp [Ifaddrs.wanted, haddr, hfamily, Address.create, Address.isIPAddress]
      obtain ⟨netmask, hnet⟩ := Option.ne_none_iff_exists'.mp fun hnone => hmask ⟨hnone, hwanted⟩
      rw [if_pos hwanted]
      refine ⟨_, by rw [hnet]; rfl, ⟨⟨_, haddr, rfl⟩, ⟨netmask, hnet, countBytes_eq _⟩, ?_, ?_⟩⟩
      · intro host k hk hlen _
        change countBytes netmask.s_addr = k
        rw [Option.some.inj (hnet.symm.trans hlen)]
        exact countBytes_inet host hk
      · rintro _ _ _ _ ⟨_, _, _, hno⟩
        cases hno
    | inet6 m flowinfo scope hm =>
      have hwanted : a.wanted family = true := by
        simp [Ifaddrs.wanted, haddr, hfamily, Address.create, Address.isIPAddress]
      obtain ⟨netmask, hnet⟩ := Option.ne_none_iff_exists'.mp fun hnone => hmask ⟨hnone, hwanted⟩
      rw [if_pos hwanted]
      refine ⟨_, by rw [hnet]; rfl, ⟨⟨_, haddr, rfl⟩, ⟨netmask, hnet, ?_⟩, ?_, ?_⟩⟩
      · exact congrArg List.sum (List.map_congr_left fun b _ => countBytes_eq b)
      · rintro _ _ _ _ ⟨_, _, hno⟩
        cases hno
      · intro host k hk hlen _
        change (netmask.s6_addr.toList.map countBytes).sum = k
        rw [Option.some.inj (hnet.symm.trans hlen)]
        exact countBytes_inet6 host hk
    | other sa_family data hother =>
      have hwanted : ¬a.wanted family = true := by
        simp [Ifaddrs.wanted, haddr, Address.create, Address.isIPAddress]
      rw [if_neg hwanted]
  · have hwanted : ¬a.wanted family = true := by simp [Ifaddrs.wanted, haddr, hfamily]
    rw [if_neg hwanted, if_pos (not_or.mp hfamily)]

/-- Each address that is wanted gives one entry. -/
theorem entries_show {results : List Ifaddrs} (h : ∀ a ∈ results, ¬a.ReadsNull family) :
    List.Forall₂ (fun a e => a.Shows e.1 e.2) (results.filter (·.wanted family))
      (results.filterMap fun a => (a.entry family).join) := by
  induction results with
  | nil => exact .nil
  | cons a results ih =>
    rw [List.forall_mem_cons] at h
    have hentry := Ifaddrs.entry_of_not_readsNull h.1
    by_cases hwanted : a.wanted family = true
    · rw [if_pos hwanted] at hentry
      obtain ⟨e, he, hshows⟩ := hentry
      rw [List.filter_cons_of_pos hwanted, List.filterMap_cons_some (by rw [he]; rfl)]
      exact .cons hshows (ih h.2)
    · rw [if_neg hwanted] at hentry
      rw [List.filter_cons_of_neg hwanted, List.filterMap_cons_none (by rw [hentry]; rfl)]
      exact ih h.2

/-- The addresses of a named interface are exactly those that `getifaddrs` has for it, of the family
    that is asked for, in their order, each with the length of its prefix; unless there is an
    interface without an address, or with one but without a mask, among all of them. -/
theorem getInterfaceAddresses_named {iface : Bytes} (hname : iface ≠ [] ∧ iface ≠ ascii "*")
    (results : List Ifaddrs) (result : List (Address × Nat)) (family : Int) :
    (getInterfaceAddressesOf (some results) result iface family = none ↔
      ∃ a ∈ results, a.ReadsNull family) ∧
    ∀ out, getInterfaceAddressesOf (some results) result iface family = some out →
      ∃ found, out = (true, result ++ found) ∧
        List.Forall₂ (fun a e => a.Shows e.1 e.2)
          ((results.filter (·.ifa_name = iface)).filter (·.wanted family)) found := by
  have hnamed : ¬(iface.isEmpty = true ∨ iface = ascii "*") := by
    rw [List.isEmpty_iff, not_or]
    exact hname
  have hof : getInterfaceAddressesOf (some results) result iface family =
      (results.foldlM (collect family) []).map fun found =>
        (true, result ++ (MultiMap.equalRange nameLess iface found).map Prod.snd) := by
    rw [getInterfaceAddressesOf, if_neg hnamed, getInterfaceAddresses]
    cases results.foldlM (collect family) [] <;> rfl
  have hnone : getInterfaceAddressesOf (some results) result iface family = none ↔
      ∃ a ∈ results, a.ReadsNull family := by
    simp only [hof, Option.map_eq_none_iff, foldlM_collect_eq_none, Ifaddrs.entry_eq_none]
  refine ⟨hnone, fun out hout => ?_⟩
  have hall : ∀ a ∈ results, ¬a.ReadsNull family := fun a ha hnull => by
    rw [hnone.mpr ⟨a, ha, hnull⟩] at hout
    cases hout
  rw [hof] at hout
  obtain ⟨found, hfound, rfl⟩ := Option.map_eq_some_iff.mp hout
  obtain ⟨hsorted, hfilter⟩ := foldlM_collect .nil hfound
  refine ⟨(results.filter (·.ifa_name = iface)).filterMap fun a => (a.entry family).join, ?_,
    entries_show fun a ha => hall a (List.mem_of_mem_filter ha)⟩
  rw [MultiMap.equalRange_eq_filter nameLess_totalOrder hsorted, hfilter iface]
  simp

/-- The address 192.0.2.7. -/
def exampleInet : IPv4Address := .ofNumber .little 0xC0000207#32 0

def exampleInterfaces : List Ifaddrs :=
  [⟨ascii "lo", some (.inet (.ofNumber .little 0x7F000001#32 0) (Vector.replicate 8 0) rfl),
      some (.ofLength .little 8)⟩,
    ⟨ascii "eth0", some (.other 17 (Vector.replicate 14 0) (by decide)), none⟩,
    ⟨ascii "eth0", some (.inet exampleInet (Vector.replicate 8 0) rfl),
      some (.ofLength .little 24)⟩]

/-- What is no IP address is left out. -/
theorem getInterfaceAddresses_named_example :
    getInterfaceAddressesOf (some exampleInterfaces) [] (ascii "eth0") 2 =
      some (true, [(.ipv4 exampleInet (Vector.replicate 8 0), 24)]) := by
  have hnull : ¬∃ a ∈ exampleInterfaces, a.ReadsNull 2 := by
    simp [exampleInterfaces, Ifaddrs.ReadsNull, Ifaddrs.wanted, Address.create,
      Address.isIPAddress]
  obtain ⟨hnone, hsome⟩ := getInterfaceAddresses_named
    (show ascii "eth0" ≠ [] ∧ ascii "eth0" ≠ ascii "*" by decide) exampleInterfaces [] 2
  obtain ⟨out, hout⟩ := Option.ne_none_iff_exists'.mp fun h => hnull (hnone.mp h)
  obtain ⟨found, rfl, hfound⟩ := hsome out hout
  have hwanted : (exampleInterfaces.filter (·.ifa_name = ascii "eth0")).filter (·.wanted 2) =
      exampleInterfaces.drop 2 := by
    rfl
  rw [hwanted] at hfound
  obtain ⟨⟨addr, n⟩, rest, hshows, hrest, rfl⟩ := List.forall₂_cons_left_iff.mp hfound
  cases List.forall₂_nil_left_iff.mp hrest
  obtain ⟨ifa_addr, haddr, hcreate⟩ := hshows.address
  cases haddr
  cases hcreate
  cases hshows.ipv4 .little 24 (by decide) rfl ⟨_, _, rfl⟩
  exact hout

end CppServerFramework.Socket

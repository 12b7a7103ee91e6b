import CppServerFramework.Misc.Memcmp
import CppServerFramework.Misc.OrderedSet
import CppServerFramework.Socket.IpAddress

/-!
# The order of addresses

`operator<` and `operator==` of `Address` (`socket/ipaddress.cpp`).  Addresses of any families
are compared as they lie in memory, as far as their length says; what they are compared by is the
lexicographic order of that memory.
-/

namespace CppServerFramework.Socket

/-- A `UnixAddress` (`ipaddress.h:119-120`), whose length stays inside its `sockaddr_un`. -/
structure UnixAddress where
  sun_family : BitVec 16
  sun_path : Vector UInt8 108
  m_length : UInt32
  length_le : m_length.toNat ≤ 110

/-- `UnixAddress::setAddrLen` (`ipaddress.cpp:537-539`). -/
def UnixAddress.setAddrLen (a : UnixAddress) (v : UInt32) (h : v.toNat ≤ 110) : UnixAddress :=
  { a with m_length := v, length_le := h }

/-- The classes derived from `Address` (`ipaddress.h:59-134`), with all that their structures
    hold. -/
inductive Address where
  | ipv4 (m_addr : IPv4Address) (sin_zero : Vector UInt8 8)
  | ipv6 (m_addr : IPv6Address) (sin6_flowinfo sin6_scope_id : BitVec 32)
  | unix (a : UnixAddress)
  | unknown (sa_family : BitVec 16) (sa_data : Vector UInt8 14)

namespace Address

variable (host : Endian)

/-- What `getAddr()` points to. -/
def getAddr : Address → List UInt8
  | .ipv4 a sin_zero => memory host 2 a.sin_family.toNat ++ memory host 2 a.sin_port.toNat ++
      memory host 4 a.s_addr.toNat ++ sin_zero.toList
  | .ipv6 a flowinfo scope => memory host 2 a.sin6_family.toNat ++
      memory host 2 a.sin6_port.toNat ++ memory host 4 flowinfo.toNat ++
      a.s6_addr.toList.map UInt8.ofBitVec ++ memory host 4 scope.toNat
  | .unix a => memory host 2 a.sun_family.toNat ++ a.sun_path.toList
  | .unknown sa_family sa_data => memory host 2 sa_family.toNat ++ sa_data.toList

/-- `getAddrLen()`: the size of the structure, except for a `UnixAddress`. -/
def getAddrLen : Address → Nat
  | .ipv4 _ _ => 16
  | .ipv6 _ _ _ => 28
  | .unix a => a.m_length.toNat
  | .unknown _ _ => 16

/-- `Address::operator<` (`ipaddress.cpp:42-60`). -/
def lt (a rhs : Address) : Bool :=
  let minlen := min a.getAddrLen rhs.getAddrLen
  match Memcmp.memcmp minlen (a.getAddr host) (rhs.getAddr host) with
  | .lt => true
  | .gt => false
  | .eq => a.getAddrLen < rhs.getAddrLen

/-- `Address::operator==` (`ipaddress.cpp:62-64`). -/
def eq (a rhs : Address) : Bool :=
  a.getAddrLen == rhs.getAddrLen &&
    Memcmp.memcmp a.getAddrLen (a.getAddr host) (rhs.getAddr host) == .eq

/-- The memory that is compared. -/
def key (a : Address) : List UInt8 := (a.getAddr host).take a.getAddrLen

variable {host} {a b c : Address}

/-- Nothing is compared that is not there. -/
theorem getAddrLen_le (a : Address) : a.getAddrLen ≤ (a.getAddr host).length := by
  cases a with
  | ipv4 a sin_zero => simp [getAddr, getAddrLen]
  | ipv6 a flowinfo scope => simp [getAddr, getAddrLen]
  | unix a => simpa [getAddr, getAddrLen] using a.length_le
  | unknown sa_family sa_data => simp [getAddr, getAddrLen]

theorem length_key (a : Address) : (a.key host).length = a.getAddrLen := by
  rw [key, List.length_take, Nat.min_eq_left a.getAddrLen_le]

/-- `operator<` is the lexicographic order of that memory, -/
theorem lt_eq : a.lt host b = (compare (a.key host) (b.key host)).isLT := by
  have hsame : Memcmp.memcmp (min a.getAddrLen b.getAddrLen) (a.key host) (b.key host) =
      Memcmp.memcmp (min a.getAddrLen b.getAddrLen) (a.getAddr host) (b.getAddr host) :=
    Memcmp.memcmp_take (Nat.min_le_left _ _) (Nat.min_le_right _ _)
  rw [Memcmp.compare_eq_memcmp, length_key, length_key, hsame, lt]
  cases Memcmp.memcmp (min a.getAddrLen b.getAddrLen) (a.getAddr host) (b.getAddr host) with
  | lt => rfl
  | gt => rfl
  | eq =>
    change decide _ = (compare a.getAddrLen b.getAddrLen).isLT
    rw [Bool.eq_iff_iff, decide_eq_true_iff, Ordering.isLT_iff_eq_lt, Nat.compare_eq_lt]

/-- and `operator==` its equality. -/
theorem eq_eq : a.eq host b = (compare (a.key host) (b.key host)).isEq := by
  rw [Bool.eq_iff_iff, Ordering.isEq_iff_eq_eq, Std.compare_eq_iff_eq, Memcmp.eq_iff_memcmp,
    length_key, length_key, eq, Bool.and_eq_true, beq_iff_eq, beq_iff_eq]
  refine and_congr_right fun hlength => ?_
  have hsame : Memcmp.memcmp a.getAddrLen (a.key host) (b.key host) =
      Memcmp.memcmp a.getAddrLen (a.getAddr host) (b.getAddr host) :=
    Memcmp.memcmp_take (Nat.le_refl _) hlength.le
  rw [hsame]

theorem lt_irrefl (a : Address) : a.lt host a = false := by
  rw [lt_eq, Std.compare_self]
  rfl

theorem lt_trans (hab : a.lt host b = true) (hbc : b.lt host c = true) : a.lt host c = true := by
  rw [lt_eq, Ordering.isLT_iff_eq_lt] at hab hbc ⊢
  exact Std.TransCmp.lt_trans hab hbc

/-- The three comparisons of two addresses. -/
theorem one_holds (a b : Address) :
    (a.lt host b).toNat + (b.lt host a).toNat + (a.eq host b).toNat = 1 := by
  have hswap : compare (b.key host) (a.key host) = (compare (a.key host) (b.key host)).swap :=
    Std.OrientedOrd.eq_swap
  rw [lt_eq, lt_eq, eq_eq, hswap]
  cases compare (a.key host) (b.key host) <;> rfl

theorem equiv_eq (a b : Address) : OrderedSet.equiv (lt host) a b = a.eq host b := by
  have hone : ∀ x y z : Bool, x.toNat + y.toNat + z.toNat = 1 → (!x && !y) = z := by decide
  exact hone _ _ _ (one_holds a b)

end Address

/-- Addresses of any families are ordered strictly, of any two exactly one is before the other or
    they are equal, and a container that is ordered by `operator<` takes for the same those that
    `operator==` does. -/
theorem address_order (host : Endian) :
    OrderedSet.StrictOrder (Address.lt host) ∧
      (∀ a b : Address,
        (a.lt host b).toNat + (b.lt host a).toNat + (a.eq host b).toNat = 1) ∧
      ∀ a b, OrderedSet.equiv (Address.lt host) a b = a.eq host b :=
  ⟨⟨Address.lt_irrefl, fun _ _ _ => Address.lt_trans⟩, Address.one_holds, Address.equiv_eq⟩

/-- A `UnixAddress` of its family alone is before one that is a byte longer, and the bytes behind
    its length do not count. -/
example : let a : UnixAddress := ⟨1, .replicate 108 0x61, 2, by decide⟩
    (Address.unix a).lt .little (.unix (a.setAddrLen 3 (by decide))) = true ∧
      (Address.unix a).eq .little (.unix { a with sun_path := .replicate 108 0 }) = true := by
  decide

end CppServerFramework.Socket

import Mathlib.Algebra.Ring.Nat
import CppServerFramework.Misc.Blocks

/-!
# `ByteArray`

The chain of memory blocks of `bytearray.cpp`.  `m_root` and the `next` pointers are a list of
nodes; `m_cur` is an index into it, `none` for the null pointer.  `new char[size]` does not
initialise the block, so every operation that allocates takes the bytes found there: `heap i`
is the byte at offset `i` of the chain.  Dereferencing a null node is an error of its own,
apart from the `std::out_of_range` the code throws.
-/

namespace CppServerFramework.Socket
open Blocks

/-- `THIS_LITTLE_ENDIAN` and `THIS_BIG_ENDIAN` (`endians.h:3-4`). -/
inductive Endian where
  | little
  | big
  deriving DecidableEq, Repr

/-- The state of a `ByteArray` (`bytearray.h:117-124`). -/
structure ByteArray where
  baseSize : Nat
  position : Nat
  capacity : Nat
  size : Nat
  endian : Endian
  nodes : List (List UInt8)
  cur : Option Nat
  deriving DecidableEq, Repr

/-- `std::out_of_range`, a null node dereferenced, or a loop that does not end. -/
inductive Error where
  | outOfRange
  | nullNode
  | stuck
  deriving DecidableEq, Repr

/-- A `struct iovec` into the chain: the node, the offset inside it and the length. -/
structure Iovec where
  node : Nat
  offset : Nat
  length : Nat
  deriving DecidableEq, Repr

/-- `new Node(size)` at index `i` of a chain of blocks of that size. -/
def newNode (heap : Nat → UInt8) (size i : Nat) : List UInt8 :=
  (List.range size).map fun j => heap (i * size + j)

/-- `cur->next`. -/
def next (nodes : List (List UInt8)) (k : Nat) : Option Nat :=
  if k + 1 < nodes.length then some (k + 1) else none

/-- The node a pointer denotes, with its index. -/
def deref (nodes : List (List UInt8)) : Option Nat → Except Error (Nat × List UInt8)
  | none => .error .nullNode
  | some k =>
    match nodes[k]? with
    | none => .error .nullNode
    | some node => .ok (k, node)

namespace ByteArray

/-- `ByteArray::ByteArray` (`bytearray.cpp:32-40`). -/
def new (baseSize : Nat) (heap : Nat → UInt8) : ByteArray where
  baseSize := baseSize
  position := 0
  capacity := baseSize
  size := 0
  endian := .big
  nodes := [newNode heap baseSize 0]
  cur := some 0

/-- `getReadSize` (`bytearray.h:90`). -/
def getReadSize (s : ByteArray) : Nat := s.size - s.position

/-- `getCapacity` (`bytearray.h:116`). -/
def getCapacity (s : ByteArray) : Nat := s.capacity - s.position

/-- `ByteArray::addCapacity` (`bytearray.cpp:669-698`). -/
def addCapacity (s : ByteArray) (size : Nat) (heap : Nat → UInt8) : ByteArray :=
  if size = 0 then s
  else
    let oldCap := s.getCapacity
    if size ≤ oldCap then s
    else
      let size := size - oldCap
      let count := size / s.baseSize + (if size % s.baseSize ≠ 0 then 1 else 0)
      let fresh := (List.range' s.nodes.length count).map (newNode heap s.baseSize)
      { s with
        nodes := s.nodes ++ fresh
        capacity := s.capacity + count * s.baseSize
        cur := if oldCap = 0 then (if count = 0 then none else some s.nodes.length) else s.cur }

/-- `ByteArray::clear` (`bytearray.cpp:370-381`). -/
def clear (s : ByteArray) : ByteArray :=
  { s with
    position := 0
    size := 0
    capacity := s.baseSize
    nodes := s.nodes.take 1
    cur := some 0 }

/-- The loop of `ByteArray::write` (`bytearray.cpp:395-415`).  In the last round `size` is set
    to 0 before `npos + size == m_cur->size` is tested, so the test compares `npos`. -/
def writeLoop : Nat → ByteArray → (npos ncap : Nat) → List UInt8 → Except Error ByteArray
  | _, s, _, _, [] => .ok s
  | 0, _, _, _, _ :: _ => .error .stuck
  | fuel + 1, s, npos, ncap, b :: bs => do
    let buf := b :: bs
    let (k, node) ← deref s.nodes s.cur
    if buf.length ≤ ncap then
      return { s with
        nodes := s.nodes.set k (overwrite node npos buf)
        position := s.position + buf.length
        cur := if npos + 0 = node.length then next s.nodes k else s.cur }
    else
      let s := { s with
        nodes := s.nodes.set k (overwrite node npos (buf.take ncap))
        position := s.position + ncap
        cur := next s.nodes k }
      let (_, node) ← deref s.nodes s.cur
      writeLoop fuel s 0 node.length (buf.drop ncap)

/-- `ByteArray::write` (`bytearray.cpp:383-420`). -/
def write (s : ByteArray) (buf : List UInt8) (heap : Nat → UInt8) : Except Error ByteArray :=
  if buf.length = 0 then .ok s
  else do
    let s := s.addCapacity buf.length heap
    let npos := s.position % s.baseSize
    let (_, node) ← deref s.nodes s.cur
    let s ← writeLoop buf.length s npos (node.length - npos) buf
    return if s.size < s.position then { s with size := s.position } else s

/-- The loop shared by the two `ByteArray::read` (`bytearray.cpp:430-449`, `460-479`): the
    bytes copied and the node pointer after the last round. -/
def readLoop (nodes : List (List UInt8)) :
    Nat → (cur : Option Nat) → (npos ncap size : Nat) → Except Error (List UInt8 × Option Nat)
  | _, cur, _, _, 0 => .ok ([], cur)
  | 0, _, _, _, _ + 1 => .error .stuck
  | fuel + 1, cur, npos, ncap, n + 1 => do
    let size := n + 1
    let (k, node) ← deref nodes cur
    if size ≤ ncap then
      return (slice node npos size, if node.length = npos + size then next nodes k else cur)
    else
      let cur := next nodes k
      let (_, node') ← deref nodes cur
      let (rest, cur) ← readLoop nodes fuel cur 0 node'.length (size - ncap)
      return (slice node npos ncap ++ rest, cur)

/-- `ByteArray::read(void*, size_t)` (`bytearray.cpp:422-450`). -/
def read (s : ByteArray) (size : Nat) : Except Error (List UInt8 × ByteArray) :=
  if s.getReadSize < size then .error .outOfRange
  else do
    let npos := s.position % s.baseSize
    let (_, node) ← deref s.nodes s.cur
    let (bytes, cur) ← readLoop s.nodes size s.cur npos (node.length - npos) size
    return (bytes, { s with cur := cur, position := s.position + size })

/-- `m_size - position` on `size_t`, which wraps when `position` is beyond `m_size`. -/
def remaining (s : ByteArray) (position : Nat) : Nat :=
  if position ≤ s.size then s.size - position else 2 ^ 64 - (position - s.size)

/-- `ByteArray::read(void*, size_t, size_t) const` (`bytearray.cpp:452-480`), which begins at
    `m_cur` wherever the position is. -/
def readAt (s : ByteArray) (size position : Nat) : Except Error (List UInt8) :=
  if s.remaining position < size then .error .outOfRange
  else do
    let npos := position % s.baseSize
    let (_, node) ← deref s.nodes s.cur
    let (bytes, _) ← readLoop s.nodes size s.cur npos (node.length - npos) size
    return bytes

/-- The walk of `setPosition` from node `i` on (`bytearray.cpp:490-497`). -/
def seek : List (List UInt8) → (i v : Nat) → Except Error (Option Nat)
  | [], _, _ => .error .nullNode
  | node :: rest, i, v =>
    if node.length < v then seek rest (i + 1) (v - node.length)
    else if v = node.length then .ok (if rest = [] then none else some (i + 1))
    else .ok (some i)

/-- `ByteArray::setPosition` (`bytearray.cpp:482-498`). -/
def setPosition (s : ByteArray) (v : Nat) : Except Error ByteArray :=
  if s.capacity < v then .error .outOfRange
  else do
    let cur ← seek s.nodes 0 v
    return { s with position := v, size := if s.size < v then v else s.size, cur := cur }

/-- `ByteArray::toString` (`bytearray.cpp:543-551`). -/
def toString (s : ByteArray) : Except Error (List UInt8) :=
  if s.getReadSize = 0 then .ok [] else s.readAt s.getReadSize s.position

/-- The loop that cuts `len` bytes into segments (`bytearray.cpp:649-665`). -/
def bufferLoop (nodes : List (List UInt8)) :
    Nat → (cur : Option Nat) → (npos ncap len : Nat) → Except Error (List Iovec)
  | _, _, _, _, 0 => .ok []
  | 0, _, _, _, _ + 1 => .error .stuck
  | fuel + 1, cur, npos, ncap, n + 1 => do
    let len := n + 1
    let (k, _) ← deref nodes cur
    if len ≤ ncap then return [⟨k, npos, len⟩]
    else
      let cur := next nodes k
      let (_, node) ← deref nodes cur
      let rest ← bufferLoop nodes fuel cur 0 node.length (len - ncap)
      return ⟨k, npos, ncap⟩ :: rest

/-- `ByteArray::getWriteBuffers` (`bytearray.cpp:638-667`). -/
def getWriteBuffers (s : ByteArray) (len : Nat) (heap : Nat → UInt8) :
    Except Error (List Iovec × ByteArray) :=
  if len = 0 then .ok ([], s)
  else do
    let s := s.addCapacity len heap
    let npos := s.position % s.baseSize
    let (_, node) ← deref s.nodes s.cur
    let iovs ← bufferLoop s.nodes len s.cur npos (node.length - npos) len
    return (iovs, s)

end ByteArray
end CppServerFramework.Socket

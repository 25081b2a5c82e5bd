import MyHttp.ByteArray
import MyHttp.Lib.Octets

/-! Values in a `ByteArray`: the members that write and read integers, floating-point numbers and strings
    (`bytearray.cpp`, `endian.h`). Floating-point numbers are their bit patterns. `host` is `MYHTTP_BYTE_ORDER`, and
    `fresh` the memory of the nodes that a `write` adds. -/

namespace MyHttp
namespace ByteArray

open Lib.Octets

/-- A member that reads or writes. What was done before an exception stays done. -/
abbrev Access := EStateM Fault ByteArray

/-- `write(buf, size)`. -/
def put (fresh : Nat → Nat → UInt8) (buf : List UInt8) : Access Unit := fun b =>
  match b.write fresh buf with
  | .ok b' => .ok () b'
  | .error f => .error f b

/-- `read(buf, size)`. -/
def take (size : Nat) : Access (List UInt8) := fun b =>
  match b.read size with
  | .ok (data, b') => .ok data b'
  | .error f => .error f b

/-! ### Byte order -/

/-- An integer of `n` bytes in the memory of a machine. -/
def image : Endian → Nat → Nat → List UInt8
  | .little, n, v => toBytes n v
  | .big, n, v => (toBytes n v).reverse

def ofImage : Endian → List UInt8 → Nat
  | .little, data => ofBytes data
  | .big, data => ofBytes data.reverse

/-- `byteswap` for `n` bytes: `bswap_16`, `bswap_32`, `bswap_64`. -/
def byteswap (n v : Nat) : Nat := ofBytes (toBytes n v).reverse

/-! ### Integers of fixed width -/

/-- `writeFint16` and its like, for a value of `n` bytes. -/
def writeF (host : Endian) (fresh : Nat → Nat → UInt8) (n value : Nat) : Access Unit := do
  let b ← get
  let value := if b.endian ≠ host then byteswap n value else value
  put fresh (image host n value)

/-- The macro `XX` of the readers. -/
def readF (host : Endian) (n : Nat) : Access Nat := do
  let data ← take n
  let v := ofImage host data
  let b ← get
  return if b.endian = host then v else byteswap n v

section Fixed

variable (host : Endian) (fresh : Nat → Nat → UInt8)

def writeFint8 (value : Int8) : Access Unit := put fresh [value.toUInt8]
def writeFuint8 (value : UInt8) : Access Unit := put fresh [value]
def writeFint16 (value : Int16) : Access Unit := writeF host fresh 2 value.toUInt16.toNat
def writeFuint16 (value : UInt16) : Access Unit := writeF host fresh 2 value.toNat
def writeFint32 (value : Int32) : Access Unit := writeF host fresh 4 value.toUInt32.toNat
def writeFuint32 (value : UInt32) : Access Unit := writeF host fresh 4 value.toNat
def writeFint64 (value : Int64) : Access Unit := writeF host fresh 8 value.toUInt64.toNat
def writeFuint64 (value : UInt64) : Access Unit := writeF host fresh 8 value.toNat
def writeFloat (value : UInt32) : Access Unit := writeFuint32 host fresh value
def writeDouble (value : UInt64) : Access Unit := writeFuint64 host fresh value

def readFuint8 : Access UInt8 := do
  let data ← take 1
  return data.headD 0

def readFint8 : Access Int8 := do
  let v ← readFuint8
  return v.toInt8

def readFuint16 : Access UInt16 := do
  let v ← readF host 2
  return .ofNat v

def readFint16 : Access Int16 := do
  let v ← readFuint16 host
  return v.toInt16

def readFuint32 : Access UInt32 := do
  let v ← readF host 4
  return .ofNat v

def readFint32 : Access Int32 := do
  let v ← readFuint32 host
  return v.toInt32

def readFuint64 : Access UInt64 := do
  let v ← readF host 8
  return .ofNat v

def readFint64 : Access Int64 := do
  let v ← readFuint64 host
  return v.toInt64

def readFloat : Access UInt32 := readFuint32 host

/-- The four bytes of a `uint32_t` are read, and become the low half of the pattern. -/
def readDouble : Access UInt64 := do
  let v ← readFuint32 host
  return v.toUInt64

end Fixed

/-! ### Integers in groups of seven bits -/

/-- The loop of `writeUint32` and `writeUint64`, when `room` bytes of `tmp` are left. -/
def fill : Nat → Nat → Option (List UInt8)
  | 0, _ => none
  | room + 1, value =>
    if value ≥ 0x80 then (fill room (value >>> 7)).map (UInt8.ofNat ((value &&& 0x7F) ||| 0x80) :: ·)
    else some [UInt8.ofNat value]

/-- `writeUint32` and `writeUint64`, with a `tmp` of `room` bytes. -/
def writeGroups (fresh : Nat → Nat → UInt8) (room value : Nat) : Access Unit :=
  match fill room value with
  | some tmp => put fresh tmp
  | none => throw .overrun

def writeUint32 (fresh : Nat → Nat → UInt8) (value : UInt32) : Access Unit := writeGroups fresh 5 value.toNat
def writeUint64 (fresh : Nat → Nat → UInt8) (value : UInt64) : Access Unit := writeGroups fresh 10 value.toNat

/-- The loop of `readUint32` and `readUint64` over the values of `i`; `result` has `w` bits. -/
def readGroups (w : Nat) : List Nat → Nat → Access Nat
  | [], result => pure result
  | i :: is, result => do
    let b ← readFuint8
    if b < 0x80 then pure (result ||| (b.toNat <<< i) % 2 ^ w)
    else readGroups w is (result ||| ((b.toNat &&& 0x7F) <<< i) % 2 ^ w)

/-- `i = 0; i < w; i += 7`. -/
def shifts (w : Nat) : List Nat := List.range' 0 ((w + 6) / 7) 7

def readUint32 : Access UInt32 := do
  let result ← readGroups 32 (shifts 32) 0
  return .ofNat result

def readUint64 : Access UInt64 := do
  let result ← readGroups 64 (shifts 64) 0
  return .ofNat result

/-! ### Signed integers -/

def EncodeZigzag32 (v : Int32) : UInt32 := if v < 0 then (-v).toUInt32 * 2 - 1 else (v * 2).toUInt32

/-- The negative branch is computed in `uint32_t`. -/
def EncodeZigzag64 (v : Int64) : UInt64 :=
  if v < 0 then ((-v).toUInt64.toUInt32 * 2 - 1).toUInt64 else (v * 2).toUInt64

def DecodeZigzag32 (v : UInt32) : Int32 := ((v >>> 1) ^^^ -(v &&& 1)).toInt32

/-- It returns an `int32_t`. -/
def DecodeZigzag64 (v : UInt64) : Int32 := ((v >>> 1) ^^^ -(v &&& 1)).toUInt32.toInt32

def writeInt32 (fresh : Nat → Nat → UInt8) (value : Int32) : Access Unit := writeUint32 fresh (EncodeZigzag32 value)
def writeInt64 (fresh : Nat → Nat → UInt8) (value : Int64) : Access Unit := writeUint64 fresh (EncodeZigzag64 value)

def readInt32 : Access Int32 := do
  let v ← readUint32
  return DecodeZigzag32 v

def readInt64 : Access Int64 := do
  let v ← readUint64
  return (DecodeZigzag64 v).toInt64

/-! ### Strings -/

section Strings

variable (host : Endian) (fresh : Nat → Nat → UInt8)

/-- `writeString16` and its like: the length in `n` bytes, and the bytes. -/
def writeStringF (n : Nat) (value : List UInt8) : Access Unit := do
  writeF host fresh n (value.length % 256 ^ n)
  put fresh value

def writeString16 (value : List UInt8) : Access Unit := writeStringF host fresh 2 value
def writeString32 (value : List UInt8) : Access Unit := writeStringF host fresh 4 value
def writeString64 (value : List UInt8) : Access Unit := writeStringF host fresh 8 value

def writeStringVint (value : List UInt8) : Access Unit := do
  writeUint64 fresh (.ofNat value.length)
  put fresh value

/-- `readStringF16` and its like. The memory that `resize` asks for is always there. -/
def readStringF (n : Nat) : Access (List UInt8) := do
  let len ← readF host n
  take len

def readStringF16 : Access (List UInt8) := readStringF host 2
def readStringF32 : Access (List UInt8) := readStringF host 4
def readStringF64 : Access (List UInt8) := readStringF host 8

/-- The length is read as eight bytes. -/
def readStringVint : Access (List UInt8) := do
  let len ← readFuint64 host
  take len.toNat

end Strings

/-! ### Values in sequence -/

/-- The types that are written with a fixed width. -/
inductive Kind where
  | int8
  | uint8
  | int16
  | uint16
  | int32
  | uint32
  | int64
  | uint64
  | float
  | double
deriving DecidableEq, Repr

namespace Kind

abbrev Value : Kind → Type
  | .int8 => Int8
  | .uint8 => UInt8
  | .int16 => Int16
  | .uint16 => UInt16
  | .int32 => Int32
  | .uint32 | .float => UInt32
  | .int64 => Int64
  | .uint64 | .double => UInt64

def write (host : Endian) (fresh : Nat → Nat → UInt8) : (k : Kind) → k.Value → Access Unit
  | .int8 => writeFint8 fresh
  | .uint8 => writeFuint8 fresh
  | .int16 => writeFint16 host fresh
  | .uint16 => writeFuint16 host fresh
  | .int32 => writeFint32 host fresh
  | .uint32 => writeFuint32 host fresh
  | .int64 => writeFint64 host fresh
  | .uint64 => writeFuint64 host fresh
  | .float => writeFloat host fresh
  | .double => writeDouble host fresh

def read (host : Endian) : (k : Kind) → Access k.Value
  | .int8 => readFint8
  | .uint8 => readFuint8
  | .int16 => readFint16 host
  | .uint16 => readFuint16 host
  | .int32 => readFint32 host
  | .uint32 => readFuint32 host
  | .int64 => readFint64 host
  | .uint64 => readFuint64 host
  | .float => readFloat host
  | .double => readDouble host

end Kind

def writeAll (host : Endian) (fresh : Nat → Nat → UInt8) : List (Sigma Kind.Value) → Access Unit
  | [] => pure ()
  | v :: vs => do
    v.1.write host fresh v.2
    writeAll host fresh vs

/-- The values of these types, each read by the member that matches. -/
def readAll (host : Endian) : List Kind → Access (List (Sigma Kind.Value))
  | [] => pure []
  | k :: ks => do
    let v ← k.read host
    let vs ← readAll host ks
    return ⟨k, v⟩ :: vs

end ByteArray
end MyHttp

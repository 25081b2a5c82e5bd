import MyHttp.ByteArray.Flat
import MyHttp.Lib.Machine

/-! `Stream` (`stream.h`, `stream.cpp`): the loops that read or write a fixed number of bytes, over any behaviour of
    `read` and `write`; and the `ByteArray` overloads of `SocketStream` (`socket_stream.cpp`).
    A `size_t` is a number below 2^64. -/

namespace MyHttp

open Lib.Chunks Lib.Machine

/-- What the calls of `read` or `write` come to. Call number `k` returns `result k n` when it can move `n` bytes at
    most, and `byte k i` is the byte number `i` that it reads. -/
structure Stream where
  result : Nat → Nat → Int
  byte : Nat → Nat → UInt8
  result_le : ∀ k n, result k n ≤ n
  result_ge : ∀ k n, -2 ^ 31 ≤ result k n
  result_lt : ∀ k n, result k n < 2 ^ 31

/-- Memory, by the distance from a buffer's start. Addresses wrap around. -/
abbrev Memory := Nat → UInt8

namespace Memory

def put (m : Memory) (offset : Nat) (data : List UInt8) : Memory :=
  fun a => data[(a + (2 ^ 64 - offset)) % 2 ^ 64]?.getD (m a)

def get (m : Memory) (offset n : Nat) : List UInt8 := (List.range n).map fun i => m ((offset + i) % 2 ^ 64)

end Memory

namespace Flat

/-- `data` put at the cursor of a row that grows by `grown`, and by what is still missing. -/
def receive (f : Flat) (grown data : List UInt8) : Flat :=
  let g := f.grow (grown ++ List.replicate (f.position + data.length - (f.bytes.length + grown.length)) 0)
  g.write data (by
    change f.position + data.length ≤ (f.bytes ++ _).length
    rw [List.length_append, List.length_append, List.length_replicate]
    omega)

/-- The cursor moved behind `n` readable bytes. -/
def skip (f : Flat) (n : Nat) : Flat := f.advance (min n (f.size - f.position)) (Nat.min_le_right _ _)

end Flat

/-! ### The loops -/

namespace Stream

/-- An underlying call as the loop makes it: where, for how many bytes, what it returns, and the bytes it moves. -/
structure Call where
  offset : Nat
  asked : Nat
  result : Int
  data : List UInt8
deriving DecidableEq, Repr

/-- What tells the four loops apart. -/
structure Overload (σ : Type) where
  /-- Where a call is made, counted from where the first one is. -/
  place : (offset : Nat) → σ → Nat
  /-- The bytes a call can move at most, when `left` are asked for. -/
  room : (left : Nat) → σ → Nat
  /-- The bytes that call number `k` moves when it returns `n`. -/
  data : (k offset n : Nat) → σ → List UInt8
  /-- What call number `k` leaves when it moves `data`. -/
  move : (k offset : Nat) → (data : List UInt8) → σ → σ

/-- A loop between two calls: `left` is not 0. Or its return value. The calls made so far are kept in both. -/
inductive Loop (σ : Type) where
  | running (offset left : Nat) (store : σ) (log : List Call)
  | ended (value : Int) (store : σ) (log : List Call)
deriving DecidableEq, Repr

variable {σ : Type}

/-- The test `while(left > 0)`, and the `return length` behind it. -/
def enter (length offset left : Nat) (store : σ) (log : List Call) : Loop σ :=
  if left > 0 then .running offset left store log else .ended (int32 length) store log

/-- Call number `k`. The test `len <= 0` is one of a `size_t`. -/
def call (o : Overload σ) (s : Stream) (length k : Nat) : Loop σ → Loop σ
  | .ended value store log => .ended value store log
  | .running offset left store log =>
    let result := s.result k (o.room left store)
    let data := o.data k offset result.toNat store
    let len := uint64 result
    let store' := o.move k offset data store
    let log' := log ++ [⟨o.place offset store, left, result, data⟩]
    if len ≤ 0 then .ended (int32 len) store' log'
    else enter length (wrap64 (offset + len)) (sub64 left len) store' log'

/-- The loop after `k` calls, or where it ended before. -/
def run (o : Overload σ) (s : Stream) (length : Nat) (store : σ) : Nat → Loop σ
  | 0 => enter length 0 length store []
  | k + 1 => call o s length k (run o s length store k)

/-- `read(void* buffer, size_t length)`. -/
def bufferRead (s : Stream) : Overload Memory where
  place offset _ := offset
  room left _ := left
  data k _ n _ := (List.range n).map (s.byte k)
  move _ offset data m := m.put offset data

/-- `read(ByteArray::ptr ba, size_t length)`, with the cursor at `start` before the first call. -/
def byteArrayRead (s : Stream) (grown : Nat → List UInt8) (start : Nat) : Overload Flat where
  place _ f := f.position - start
  room left _ := left
  data k _ n _ := (List.range n).map (s.byte k)
  move k _ data f := f.receive (grown k) data

/-- `write(const void* buffer, size_t length)`. -/
def bufferWrite (buffer : Memory) : Overload Unit where
  place offset _ := offset
  room left _ := left
  data _ offset n _ := buffer.get offset n
  move _ _ _ _ := ()

/-- `write(ByteArray::ptr ba, size_t length)`: no more is written than is readable. -/
def byteArrayWrite (start : Nat) : Overload Flat where
  place _ f := f.position - start
  room left f := min left (f.size - f.position)
  data _ _ n f := f.peek n
  move _ _ data f := f.skip data.length

/-- `readFixSize(void* buffer, size_t length)`. -/
def readFixSize (s : Stream) (buffer : Memory) (length : Nat) : Nat → Loop Memory :=
  run s.bufferRead s length buffer

/-- `readFixSize(ByteArray::ptr ba, size_t length)`. -/
def readFixSizeByteArray (s : Stream) (grown : Nat → List UInt8) (ba : Flat) (length : Nat) : Nat → Loop Flat :=
  run (s.byteArrayRead grown ba.position) s length ba

/-- `writeFixSize(const void* buffer, size_t length)`. -/
def writeFixSize (s : Stream) (buffer : Memory) (length : Nat) : Nat → Loop Unit :=
  run (bufferWrite buffer) s length ()

/-- `writeFixSize(ByteArray::ptr ba, size_t length)`. -/
def writeFixSizeByteArray (s : Stream) (ba : Flat) (length : Nat) : Nat → Loop Flat :=
  run (byteArrayWrite ba.position) s length ba

end Stream

/-! ### `SocketStream` -/

namespace SocketStream

/-- `read(ByteArray::ptr ba, size_t length)`, when `recv` returns `rt` and puts `data` into the buffers. -/
def read (isConnected : Bool) (fresh : Nat → Nat → UInt8) (ba : ByteArray) (length : Nat) (rt : Int)
    (data : List UInt8) : Except Fault (Int × ByteArray) :=
  if !isConnected then .ok (-1, ba) else do
  let (iovs, ba) ← ba.getWriteBuffers fresh length
  let ba := { ba with nodes := scatter ba.nodes iovs data }
  if rt > 0 then do
    let ba ← ba.setPosition (ba.getPosition + rt.toNat)
    return (rt, ba)
  else return (rt, ba)

/-- `write(ByteArray::ptr ba, size_t length)`, when `send` returns `rt`; with the bytes it sends. -/
def write (isConnected : Bool) (ba : ByteArray) (length : Nat) (rt : Int) :
    Except Fault (Int × List UInt8 × ByteArray) :=
  if !isConnected then .ok (-1, [], ba) else do
  let iovs ← ba.getReadBuffers length
  let sent := (gather ba.nodes iovs).take rt.toNat
  if rt > 0 then do
    let ba ← ba.setPosition (ba.getPosition + rt.toNat)
    return (rt, sent, ba)
  else return (rt, sent, ba)

end SocketStream
end MyHttp

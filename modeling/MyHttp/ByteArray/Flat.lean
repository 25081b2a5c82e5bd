import MyHttp.ByteArray

/-! What a `ByteArray` is for: one row of bytes with a cursor. `size` is how far the row was used; the bytes behind
    it are there, but hold whatever was in the memory. -/

namespace MyHttp

open Lib.Chunks

/-- A row of bytes with a cursor in its used part. -/
structure Flat where
  bytes : List UInt8
  position : Nat
  size : Nat
  position_le : position ≤ size
  size_le : size ≤ bytes.length

namespace Flat

def new (memory : List UInt8) : Flat := ⟨memory, 0, 0, Nat.le_refl 0, Nat.zero_le _⟩

/-- The row made longer at its end. -/
def grow (f : Flat) (grown : List UInt8) : Flat :=
  { f with bytes := f.bytes ++ grown
           size_le := f.size_le.trans (by rw [List.length_append]; exact Nat.le_add_right _ _) }

/-- `data` put at the cursor, which moves behind it. -/
def write (f : Flat) (data : List UInt8) (h : f.position + data.length ≤ f.bytes.length) : Flat where
  bytes := overwrite f.bytes f.position data
  position := f.position + data.length
  size := max f.size (f.position + data.length)
  position_le := Nat.le_max_right _ _
  size_le := by
    rw [length_overwrite h]
    exact Nat.max_le.mpr ⟨f.size_le, h⟩

/-- The `n` bytes at the cursor. -/
def peek (f : Flat) (n : Nat) : List UInt8 := (f.bytes.drop f.position).take n

def advance (f : Flat) (n : Nat) (h : n ≤ f.size - f.position) : Flat :=
  { f with position := f.position + n
           position_le := by have := f.position_le; omega }

def setPosition (f : Flat) (v : Nat) (h : v ≤ f.bytes.length) : Flat where
  bytes := f.bytes
  position := v
  size := max f.size v
  position_le := Nat.le_max_right _ _
  size_le := Nat.max_le.mpr ⟨f.size_le, h⟩

/-- The steps of the row, with what the caller sees. A row of a `ByteArray` with base size `B` grows as it is
    written, by bytes that are not determined, and is cut to its first `B` bytes when it is cleared. -/
inductive Step (B : Nat) : Flat → ByteArray.Op × ByteArray.Reply → Flat → Prop
  | write {f : Flat} {fresh : Nat → Nat → UInt8} {data : List UInt8} (grown : List UInt8)
      (h : f.position + data.length ≤ (f.grow grown).bytes.length) :
      Step B f (.write fresh data, .done) ((f.grow grown).write data h)
  | read {f : Flat} {n : Nat} (h : n ≤ f.size - f.position) :
      Step B f (.read n, .bytes (f.peek n)) (f.advance n h)
  | readFault {f : Flat} {n : Nat} : f.size - f.position < n →
      Step B f (.read n, .fault (.outOfRange "not enough len")) f
  | setPosition {f : Flat} {v : Nat} (h : v ≤ f.bytes.length) :
      Step B f (.setPosition v, .done) (f.setPosition v h)
  | setPositionFault {f : Flat} {v : Nat} : f.bytes.length < v →
      Step B f (.setPosition v, .fault (.outOfRange "set_position out of range")) f
  | clear {f : Flat} : Step B f (.clear, .done) (new (f.bytes.take B))
  | toString {f : Flat} : Step B f (.toString, .bytes (f.peek (f.size - f.position))) f
  | getWriteBuffers {f : Flat} {fresh : Nat → Nat → UInt8} {n : Nat} {spans : List Span} (grown : List UInt8) :
      f.position + n ≤ (f.grow grown).bytes.length → Tiles B f.position spans n →
      Step B f (.getWriteBuffers fresh n, .buffers spans) (f.grow grown)
  | setIsLittlEndian {f : Flat} {val : Bool} : Step B f (.setIsLittlEndian val, .done) f

end Flat
end MyHttp

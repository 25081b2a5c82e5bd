import MyHttp.Lib.Chunks

/-! `ByteArray` (`bytearray.h`, `bytearray.cpp`): a cursor over a linked list of memory blocks of one size.
    The list is `nodes`, from `m_root` on; `m_cur` is the number of a node, or `none` for the null pointer.
    The bytes of a block that `new char[s]` leaves uninitialised are a parameter of the operation. -/

namespace MyHttp

open Lib.Chunks

/-- A memory block. Its `size` is its length. -/
abbrev Node := List UInt8

/-- `Node(s)`: the block holds whatever was in the memory. -/
def Node.new (fresh : Nat → UInt8) (s : Nat) : Node := (List.range s).map fresh

inductive Endian where
  | little
  | big
deriving DecidableEq, Repr

structure ByteArray where
  baseSize : Nat
  position : Nat
  capacity : Nat
  size : Nat
  endian : Endian
  nodes : List Node
  cur : Option Nat
deriving DecidableEq, Repr

/-- What ends an operation early: an exception, a null `Node*` that is followed, or a local buffer that is written
    behind its end. -/
inductive Fault where
  | outOfRange (what : String)
  | nullNode
  | overrun
deriving DecidableEq, Repr

namespace ByteArray

def new (fresh : Nat → UInt8) (baseSize : Nat) : ByteArray :=
  { baseSize, position := 0, capacity := baseSize, size := 0, endian := .big
    nodes := [Node.new fresh baseSize], cur := some 0 }

def isLittleEndian (b : ByteArray) : Bool := b.endian = .little

def setIsLittlEndian (b : ByteArray) (val : Bool) : ByteArray :=
  { b with endian := if val then .little else .big }

/-- The capacity left after the cursor. -/
def getCapacity (b : ByteArray) : Nat := b.capacity - b.position

def getReadSize (b : ByteArray) : Nat := b.size - b.position

def getSize (b : ByteArray) : Nat := b.size

def getPosition (b : ByteArray) : Nat := b.position

/-- The nodes a pointer leads to, following `next`. -/
def nodesFrom (b : ByteArray) : Option Nat → List Node
  | none => []
  | some i => b.nodes.drop i

/-- The pointer `next` of node number `i`, when `rest` are the nodes behind it. -/
def next (i : Nat) (rest : List Node) : Option Nat := if rest = [] then none else some (i + 1)

/-- `m_root`, `m_cur` and the counters after `clear`, which deletes every node but the first. -/
def clear (b : ByteArray) : ByteArray :=
  { b with position := 0, size := 0, capacity := b.baseSize, nodes := b.nodes.take 1, cur := some 0 }

/-- Room for `size` more bytes: `count` nodes are put at the end of the list. `fresh k` is the memory of the
    `k`-th of them. -/
def addCapacity (fresh : Nat → Nat → UInt8) (b : ByteArray) (size : Nat) : ByteArray :=
  if size = 0 then b else
  let oldCap := b.getCapacity
  if oldCap ≥ size then b else
  let size := size - oldCap
  let count := size / b.baseSize + (if size % b.baseSize > oldCap then 1 else 0)
  let added := (List.range count).map fun k => Node.new (fresh k) b.baseSize
  let first := if count = 0 then none else some b.nodes.length
  { b with nodes := b.nodes ++ added, capacity := b.capacity + count * b.baseSize
           cur := if oldCap = 0 then first else b.cur }

/-- The loop that `write`, `read` and the buffer views share. The list is what is left of the nodes from `cur`
    on, `i` the number of the first of them; `size` bytes are taken from offset `npos` on. The spans are the
    parts of the nodes that are taken; the pointer is `cur` as `write` and `read` leave it, one node
    further when the last node is used up. -/
def walk : List Node → Nat → Nat → Nat → Except Fault (List Span × Option Nat)
  | [], _, _, _ => .error .nullNode
  | node :: rest, i, npos, size =>
    let ncap := node.length - npos
    if size = 0 then .ok ([], some i)
    else if ncap ≥ size then
      .ok ([⟨i, npos, size⟩], if node.length = npos + size then next i rest else some i)
    else do
      let (spans, cur) ← walk rest (i + 1) 0 (size - ncap)
      return (⟨i, npos, ncap⟩ :: spans, cur)

/-- `walk` from the node `cur` points to. -/
def walkFrom (b : ByteArray) (npos size : Nat) : Except Fault (List Span × Option Nat) :=
  walk (b.nodesFrom b.cur) (b.cur.getD 0) npos size

def write (fresh : Nat → Nat → UInt8) (b : ByteArray) (buf : List UInt8) : Except Fault ByteArray :=
  if buf.length = 0 then .ok b else do
  let b := b.addCapacity fresh buf.length
  let (spans, cur) ← b.walkFrom (b.position % b.baseSize) buf.length
  let position := b.position + buf.length
  return { b with nodes := scatter b.nodes spans buf, cur, position
                  size := if position > b.size then position else b.size }

def read (b : ByteArray) (size : Nat) : Except Fault (List UInt8 × ByteArray) :=
  if size > b.getReadSize then .error (.outOfRange "not enough len") else do
  let (spans, cur) ← b.walkFrom (b.position % b.baseSize) size
  return (gather b.nodes spans, { b with cur, position := b.position + size })

/-- `read(buf, size, position) const`. It starts at `m_cur`, whatever `position` is. -/
def readAt (b : ByteArray) (size position : Nat) : Except Fault (List UInt8) :=
  if size > b.getReadSize then .error (.outOfRange "not enough len") else do
  let (spans, _) ← b.walkFrom (position % b.baseSize) size
  return gather b.nodes spans

/-- The loop of `setPosition`: the pointer after `v` bytes, from node number `i` on. -/
def seek : List Node → Nat → Nat → Except Fault (Option Nat)
  | [], _, _ => .error .nullNode
  | node :: rest, i, v =>
    if v > node.length then seek rest (i + 1) (v - node.length)
    else .ok (if v = node.length then next i rest else some i)

def setPosition (b : ByteArray) (v : Nat) : Except Fault ByteArray :=
  if v > b.capacity then .error (.outOfRange "set_position out of range") else do
  let cur ← seek b.nodes 0 v
  return { b with position := v, size := if v > b.size then v else b.size, cur }

def toString (b : ByteArray) : Except Fault (List UInt8) :=
  if b.getReadSize = 0 then .ok [] else b.readAt b.getReadSize b.position

/-- The iovecs of the readable bytes from the cursor on, `len` of them at most. -/
def getReadBuffers (b : ByteArray) (len : Nat) : Except Fault (List Span) :=
  let len := if len > b.getReadSize then b.getReadSize else len
  if len = 0 then .ok [] else do
  let (spans, _) ← b.walkFrom (b.position % b.baseSize) len
  return spans

/-- The loop of `getReadBuffers(buffers, len, position)`, which has the room of the first node from elsewhere. -/
def views : List Node → Nat → Nat → Nat → Nat → Except Fault (List Span)
  | nodes, i, npos, ncap, len =>
    if len = 0 then .ok [] else
    match nodes with
    | [] => .error .nullNode
    | _ :: rest =>
      if ncap ≥ len then .ok [⟨i, npos, len⟩] else
      match rest with
      | [] => .error .nullNode
      | node :: nodes => do
        let spans ← views (node :: nodes) (i + 1) 0 node.length (len - ncap)
        return ⟨i, npos, ncap⟩ :: spans

/-- `getReadBuffers(buffers, len, position)`. The node is that of `position`; what is readable, and the room of the first
    node, are counted at the cursor. -/
def getReadBuffersAt (b : ByteArray) (len position : Nat) : Except Fault (Nat × List Span) :=
  let len := if len > b.getReadSize then b.getReadSize else len
  if len = 0 then .ok (0, []) else
  match b.nodesFrom b.cur with
  | [] => .error .nullNode
  | node :: _ => do
    let npos := position % b.baseSize
    let count := position / b.baseSize
    let spans ← views (b.nodes.drop count) count npos (node.length - npos) len
    return (len, spans)

/-- The iovecs of `len` writable bytes from the cursor on; the cursor stays. -/
def getWriteBuffers (fresh : Nat → Nat → UInt8) (b : ByteArray) (len : Nat) :
    Except Fault (List Span × ByteArray) :=
  if len = 0 then .ok ([], b) else do
  let b := b.addCapacity fresh len
  let (spans, _) ← b.walkFrom (b.position % b.baseSize) len
  return (spans, b)

/-! ### Operations in sequence -/

/-- A public operation. The typed `writeX` and `readX` are `write`s and `read`s of their encodings, `readFromFile`
    is a sequence of `write`s, and the other members do not change the state. -/
inductive Op where
  | write (fresh : Nat → Nat → UInt8) (buf : List UInt8)
  | read (size : Nat)
  | setPosition (v : Nat)
  | clear
  | toString
  | getWriteBuffers (fresh : Nat → Nat → UInt8) (len : Nat)
  | setIsLittlEndian (val : Bool)

/-- What an operation gives its caller. -/
inductive Reply where
  | done
  | bytes (data : List UInt8)
  | buffers (spans : List Span)
  | fault (f : Fault)
deriving DecidableEq, Repr

/-- The reply of an operation and the state after it; an exception leaves the state as it was. -/
def reply {α : Type} (b : ByteArray) (r : Except Fault α) (ok : α → Reply × ByteArray) : Reply × ByteArray :=
  match r with
  | .ok a => ok a
  | .error f => (.fault f, b)

def perform (b : ByteArray) : Op → Reply × ByteArray
  | .write fresh buf => reply b (b.write fresh buf) fun b' => (.done, b')
  | .read size => reply b (b.read size) fun (data, b') => (.bytes data, b')
  | .setPosition v => reply b (b.setPosition v) fun b' => (.done, b')
  | .clear => (.done, b.clear)
  | .toString => reply b b.toString fun data => (.bytes data, b)
  | .getWriteBuffers fresh len => reply b (b.getWriteBuffers fresh len) fun (spans, b') => (.buffers spans, b')
  | .setIsLittlEndian val => (.done, b.setIsLittlEndian val)

/-- A run goes on after an exception, but not after a null pointer was followed. -/
def step (b : ByteArray) (op : Op) : Option ByteArray :=
  match b.perform op with
  | (.fault .nullNode, _) => none
  | (_, b') => some b'

end ByteArray
end MyHttp

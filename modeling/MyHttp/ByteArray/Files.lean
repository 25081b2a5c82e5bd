import MyHttp.ByteArray
import MyHttp.Lib.Machine

/-! The readable bytes of a `ByteArray` written to a file, and a `ByteArray` filled from one (`writeToFile`,
    `readFromFile`). The file can be opened, and it keeps what is written. -/

namespace MyHttp

open Lib.Chunks Lib.Machine

namespace ByteArray

/-- The call `ofs.write(cur->ptr + diff, len)`, with the number of the node `cur`. -/
structure FileWrite where
  node : Nat
  diff : Int
  len : Int
deriving DecidableEq, Repr

/-- The place of the bytes that are written, when `diff` and `len` are not negative. -/
def FileWrite.span (w : FileWrite) : Span := ⟨w.node, w.diff.toNat, w.len.toNat⟩

/-- The loop of `writeToFile`. The list is what is left of the nodes from `cur` on, `i` the number of the first of them. -/
def fileWrites (baseSize : Nat) : List Node → Nat → Int → Int → Except Fault (List FileWrite)
  | [], _, _, readSize => if readSize > 0 then .error .nullNode else .ok []
  | _ :: rest, i, pos, readSize =>
    if readSize > 0 then do
      let diff := int32 (pos % baseSize)
      let len := (if readSize > baseSize then (baseSize : Int) else readSize) - diff
      let writes ← fileWrites baseSize rest (i + 1) (pos + len) (readSize - len)
      return ⟨i, diff, len⟩ :: writes
    else .ok []

def writeToFile (b : ByteArray) : Except Fault (List FileWrite) :=
  fileWrites b.baseSize (b.nodesFrom b.cur) (b.cur.getD 0) b.position b.getReadSize

/-- The loop of `readFromFile` over what is left of the file, with a bound on its rounds; `none` when it has not come to
    an end by then. A read of fewer bytes than were asked for is at the end of the file. -/
def readFile (fresh : Nat → Nat → Nat → UInt8) : Nat → ByteArray → List UInt8 → Option (Except Fault ByteArray)
  | 0, _, _ => none
  | rounds + 1, b, file =>
    let buff := file.take b.baseSize
    match b.write (fresh rounds) buff with
    | .error f => some (.error f)
    | .ok b' => if buff.length < b.baseSize then some (.ok b') else readFile fresh rounds b' (file.drop b.baseSize)

end ByteArray
end MyHttp

import MyHttp.Http.Connection

/-! The line of a chunk header read by its grammar: a size, and extensions of which each is a name with or without a
    value. What is read may be a part of a line, or go on behind it. -/

namespace MyHttp
namespace Http

open Lib.CString Lib.Machine Lib.Scan

namespace ChunkLine

def isToken (c : UInt8) : Bool := Client.token.has c

/-- What stands behind a size or an extension that is complete. -/
def ends (c : UInt8) : Bool := c = 59 || c = 13 || c = 10

/-- An extension in front, when it is complete, and the bytes from its end on. -/
def extension (d : Bytes) : Option ((Bytes × Bytes) × Bytes) :=
  let name := d.takeWhile isToken
  let rest := d.dropWhile isToken
  if name = [] then none
  else if rest.head? = some 61 then
    let value := rest.tail.takeWhile isToken
    let rest := rest.tail.dropWhile isToken
    if value ≠ [] ∧ rest.head?.any ends then some ((name, value), rest) else none
  else if rest.head?.any ends then some ((name, []), rest) else none

/-- The extensions behind a semicolon, up to the first that is not complete; no more than `n`. -/
def extensions : Nat → Bytes → List (Bytes × Bytes)
  | 0, _ => []
  | n + 1, d =>
    match extension d with
    | some (x, rest) => x :: if rest.head? = some 59 then extensions n rest.tail else []
    | none => []

def size (d : Bytes) : Bytes := d.takeWhile isxdigit

def tail (d : Bytes) : Bytes := d.dropWhile isxdigit

/-- The line has a size that is complete, and it is that of a chunk with data. -/
def announces (d : Bytes) : Prop :=
  size d ≠ [] ∧ (tail d).head?.any ends = true ∧ 0 < int32 (strtol d 16)

instance (d : Bytes) : Decidable (announces d) := inferInstanceAs (Decidable (_ ∧ _))

/-- The extensions of the line. -/
def fields (d : Bytes) : List (Bytes × Bytes) :=
  if size d ≠ [] ∧ (tail d).head? = some 59 then extensions d.length (tail d).tail else []

end ChunkLine

namespace Headers

def setAll (m : Headers) (fields : List (Bytes × Bytes)) : Headers := fields.foldl (fun m x => m.set x.1 x.2) m

end Headers

/-- What a response head says: status, version, reason phrase and headers. -/
structure ResponseHead where
  status : Int
  version : Nat
  reason : Bytes
  headers : Headers
deriving DecidableEq, Repr

def HttpResponse.head (r : HttpResponse) : ResponseHead := ⟨r.status, r.version, r.reason, r.headers⟩

namespace RecvResponse

def head (s : RecvResponse) : ResponseHead := s.parser.data.head

/-- Where the parser is given a chunk header: no status line stands there, the size of a chunk with data is the reason
    phrase itself, and the extensions set headers to what they are. -/
def LeavesHead (s : RecvResponse) : RecvAct → Prop
  | .run => s.pc = .chunkParse → s.data.head? ≠ some 72 ∧
    (ChunkLine.announces s.data → ChunkLine.size s.data = s.parser.data.reason) ∧
    s.parser.data.headers.setAll (ChunkLine.fields s.data) = s.parser.data.headers
  | .read _ => True

instance (s : RecvResponse) (a : RecvAct) : Decidable (s.LeavesHead a) := by
  induction a using RecvAct.casesOn <;> unfold LeavesHead <;> infer_instance

end RecvResponse
end Http
end MyHttp

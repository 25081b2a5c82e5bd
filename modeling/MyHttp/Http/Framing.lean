import MyHttp.Http.Connection
import MyHttp.Lib.Marks
import MyHttp.Lib.Run

/-! Responses as a peer sends them, and the reads with which `recvResponse` makes the right one of them. -/

namespace MyHttp
namespace Http

open Lib.CString Lib.Machine Lib.Scan

def crlf : Bytes := [13, 10]

/-- A chunk as it is sent: its size in hexadecimal digits and its data. -/
structure Chunk where
  size : Bytes
  data : Bytes
  nonempty : size ≠ []
  hex : ∀ c ∈ size, isxdigit c = true
  length : digits 16 0 size = data.length

def Chunk.bytes (c : Chunk) : Bytes := c.size ++ crlf ++ c.data ++ crlf

/-- The zero chunk is the last one, and no other. -/
def Ended : List Chunk → Prop
  | [] => False
  | [c] => c.data = []
  | c :: cs => c.data ≠ [] ∧ Ended cs

def contentLength : Bytes := ascii "content-length"

namespace HttpResponseParser

/-- The parser after a head that comes in one piece. -/
def whole (head : Bytes) : HttpResponseParser := new.run head

/-- A response that the parser accepts up to its last byte, in one of the final states. -/
structure IsHead (head : Bytes) : Prop where
  response : head.head? = some 72
  error : (whole head).error = 0
  final : 120 ≤ (whole head).parser.cs
  nread : (whole head).parser.nread = head.length

/-- What follows a head, and the body it stands for. -/
inductive Framed (head : Bytes) : Bytes → Bytes → Prop
  | length {body : Bytes} : (whole head).parser.chunked = false → (whole head).getContentLength = body.length →
      Framed head body body
  | chunks {cs : List Chunk} : (whole head).parser.chunked = true → Ended cs →
      Framed head (cs.flatMap Chunk.bytes) (cs.flatMap Chunk.data)

end HttpResponseParser

/-- The positions that the actions remember. -/
def ClientAction.reg : ClientAction → Option Reg
  | .mark => some .mark
  | .startField => some .fieldStart
  | .writeField => some .field
  | _ => none

/-- An action of a head at position `p`, when the read it is in is `data` and begins at `b`: the version ends in the read
    it begins in, or right before it; a header has its colon, but not as the first byte, and its value in the read it
    ends in. Unless the body comes in chunks, what is there of a name is `content-length` just when the name is. -/
def Kept (head data : Bytes) (b : Nat) (m : Marks) (p : Nat) : ClientAction → Prop
  | .httpVersion => b ≤ m.mark ∨ p = b
  | .writeValue =>
    b < m.colon ∧ b ≤ m.mark ∧
      ((HttpResponseParser.whole head).parser.chunked = true ∨
        strcaseEquiv ((data.drop (m.fieldStart - b)).take (m.colon - max m.nameStart b)) contentLength =
          strcaseEquiv ((head.drop m.fieldStart).take (m.colon - m.nameStart)) contentLength)
  | _ => True

instance (head data : Bytes) (b : Nat) (m : Marks) (p : Nat) (a : ClientAction) : Decidable (Kept head data b m p a) := by
  induction a using ClientAction.casesOn <;> unfold Kept <;> infer_instance

namespace RecvResponse

/-- The actions of the parser on the first bytes of a head. -/
def headCalls (bytes : Bytes) : List (Nat × ClientAction) := calls Client.table (· = .done) 0 1 bytes

/-- Where the bytes in the buffer begin in a message. -/
def position (message : Bytes) (s : RecvResponse) : Nat := message.length - (s.data.length + s.input.length)

/-- What must be true of a step on a message. A read inside the head keeps what the parser looks at; the line of a chunk
    header comes with one read, up to leading zeros, and a chunk with at least two of its bytes and none of the next one;
    when it comes in parts, then the two bytes cut off the first part are those that the line end puts in their place;
    something is left to read behind every chunk header and whenever a chunk header is read. -/
def Aligned (head payload : Bytes) (s : RecvResponse) : RecvAct → Prop
  | .read _ => s.pc = .chunkRead → s.input ≠ []
  | .run =>
    match s.pc with
    | .headParse =>
      let b := s.position (head ++ payload)
      ∀ x ∈ seen ClientAction.reg (runCalls (Marks.act ClientAction.reg) .zero (headCalls (head.take b)))
        (calls Client.table (· = .done) b s.parser.parser.cs s.data), Kept head s.data b x.1 x.2.1 x.2.2
    | .chunkParse =>
      strtol s.data 16 < 2 ^ 31 ∧
        (10 ∈ s.data ∨ (∀ c ∈ s.data, c = 48) ∧ s.input.head?.any isxdigit = true)
    | .trim =>
      let contentLen := s.parser.parser.contentLen.toNat
      2 ≤ s.data.length ∧ s.data.length ≤ contentLen + 2 ∧
        ((s.data ++ s.input).take (contentLen + 2)).drop s.data.length =
          ((s.data ++ s.input).take contentLen).drop (s.data.length - 2)
    | .length => s.input = [] ∨ 0 < int32 s.input.length
    | _ => True

instance (head payload : Bytes) (s : RecvResponse) (a : RecvAct) : Decidable (Aligned head payload s a) := by
  induction a using RecvAct.casesOn with
  | read count => unfold Aligned; infer_instance
  | run =>
    dsimp only [Aligned]
    haveI zeros (x : Bytes) : Decidable (∀ c ∈ x, c = 48) := List.decidableBAll _ x
    induction s.pc using RecvPc.casesOn <;> infer_instance

/-- Nothing is thrown, a response has the body, none is missing, and as long as there is none the code goes on. -/
structure Right (body : Bytes) (s : RecvResponse) : Prop where
  thrown : s.pc ≠ .fault
  response : ∀ response, s.pc = .returned response → response = true ∧ s.parser.data.body = body
  goesOn : (∀ response, s.pc ≠ .returned response) → ∃ a t, s.step a = some t

end RecvResponse
end Http
end MyHttp

import MyHttp.Http.Session
import MyHttp.Lib.Marks
import MyHttp.Lib.Run

/-! Requests as a client sends them, and the reads with which `recvRequest` makes the right ones of them. -/

namespace MyHttp
namespace Http

open Lib.CString Lib.Machine Lib.Scan

namespace HttpRequestParser

/-- The parser after a head that comes in one piece. -/
def whole (relaxed : Bool) (head : Bytes) : HttpRequestParser := (new relaxed).run head

/-- A request head that the parser accepts up to its last byte. -/
structure IsRequest (relaxed : Bool) (head : Bytes) : Prop where
  error : (whole relaxed head).error = 0
  thrown : (whole relaxed head).thrown = false
  final : (whole relaxed head).parser.cs = 348
  nread : (whole relaxed head).parser.nread = head.length

end HttpRequestParser

/-- The positions that the actions remember. -/
def RequestAction.reg : RequestAction → Option Reg
  | .mark => some .mark
  | .startField => some .fieldStart
  | .writeField => some .field
  | .startQuery => some .query
  | _ => none

/-- An action of a head at position `p`, when the read it is in is `data` and begins at `b`: a token is all in the read it
    ends in, but for what the callback reads the same in the part that is. -/
def KeptToken (head data : Bytes) (b : Nat) (m : Marks) (p : Nat) : RequestAction → Prop
  | .requestMethod => charsToHttpMethod (data.drop (m.mark - b)) = charsToHttpMethod (head.drop m.mark)
  | .httpVersion =>
    HttpRequestParser.chars2Version (data.drop (m.mark - b)) (p - max m.mark b) =
      HttpRequestParser.chars2Version (head.drop m.mark) (p - m.mark)
  | .requestPath | .fragment => b ≤ m.mark
  | .queryString => b ≤ m.query
  | .writeValue => b ≤ m.nameStart ∧ b ≤ m.mark
  | _ => True

instance (head data : Bytes) (b : Nat) (m : Marks) (p : Nat) (a : RequestAction) :
    Decidable (KeptToken head data b m p a) := by
  induction a using RequestAction.casesOn <;> unfold KeptToken <;> infer_instance

namespace RecvRequest

open HttpRequestParser

/-- A request as it is sent. -/
structure Sent (relaxed : Bool) (head body : Bytes) : Prop where
  isRequest : IsRequest relaxed head
  /-- also when there is no such header, and no body -/
  length : (whole relaxed head).getContentLength = body.length

/-- The request that a head and a body stand for. -/
def request (relaxed : Bool) (head body : Bytes) : HttpRequest := { (whole relaxed head).data with body }

/-- The actions of the parser on the first bytes of a head. -/
def headCalls (relaxed : Bool) (bytes : Bytes) : List (Nat × RequestAction) :=
  calls (Http11.table relaxed) (· = .done) 0 1 bytes

/-- Where the bytes in the buffer begin in a message. -/
def position (message : Bytes) (s : RecvRequest) : Nat := message.length - (s.data.length + s.input.length)

/-- What must be true of a step on a request that others may follow. A read inside the head keeps its tokens and has
    nothing of what follows; the body's rest is a length that is positive as an `int`. -/
def Aligned (head body rest : Bytes) (s : RecvRequest) : RecvAct → Prop
  | .read _ => True
  | .run =>
    match s.pc with
    | .headParse =>
      let b := s.position (head ++ body ++ rest)
      let relaxed := s.parser.parser.uriRelaxed
      rest.length ≤ s.input.length ∧
        ∀ x ∈ seen RequestAction.reg (runCalls (Marks.act RequestAction.reg) .zero (headCalls relaxed (head.take b)))
          (calls (Http11.table relaxed) (· = .done) b s.parser.parser.cs s.data), KeptToken head s.data b x.1 x.2.1 x.2.2
    | .length => body.length ≤ s.data.length ∨ 0 < int32 (body.length - s.data.length)
    | _ => True

instance (head body rest : Bytes) (s : RecvRequest) (a : RecvAct) : Decidable (Aligned head body rest s a) := by
  induction a using RecvAct.casesOn with
  | read count => unfold Aligned; infer_instance
  | run =>
    dsimp only [Aligned]
    induction s.pc using RequestPc.casesOn <;> infer_instance

/-- Nothing is thrown, a request that is returned is the one that was sent, none is missing, and as long as there is none
    the code goes on, and each step brings the end nearer. -/
structure Right (request : HttpRequest) (s : RecvRequest) : Prop where
  thrown : s.pc ≠ .fault
  returned : ∀ b, s.pc = .returned b → b = true ∧ s.parser.data = request
  goesOn : (∀ b, s.pc ≠ .returned b) → ∃ a t, s.step a = some t
  nearer : ∀ a t, s.step a = some t → t.cost < s.cost

end RecvRequest

/-! ### One request after the other -/

/-- A request with the text it is sent as. -/
structure Message (relaxed : Bool) where
  head : Bytes
  body : Bytes
  sent : RecvRequest.Sent relaxed head body

namespace Message

variable {relaxed : Bool}

def bytes (r : Message relaxed) : Bytes := r.head ++ r.body

def request (r : Message relaxed) : HttpRequest := RecvRequest.request relaxed r.head r.body

end Message

/-- Calls of `recvRequest` on one session, one after the other. -/
structure Session where
  call : RecvRequest
  /-- what the calls before have returned -/
  results : List (Option HttpRequest)
  /-- how many calls come after this one -/
  left : Nat
deriving DecidableEq, Repr

inductive SessionAct where
  | recv (a : RecvAct)
  /-- the call has returned, and the next one begins -/
  | again
deriving DecidableEq, Repr

namespace Session

/-- So many calls on what the client sends. -/
def init (buffSize maxSize : Nat) (relaxed : Bool) (input : Bytes) (calls : Nat) : Session :=
  ⟨.init buffSize maxSize relaxed input, [], calls - 1⟩

def step (s : Session) : SessionAct → Option Session
  | .recv a => (s.call.step a).map fun call => { s with call }
  | .again =>
    match s.call.pc with
    | .returned b =>
      if s.left = 0 then none
      else
        some {
          call := .init s.call.buffSize s.call.maxSize s.call.parser.parser.uriRelaxed s.call.input
          results := s.results ++ [if b then some s.call.parser.data else none]
          left := s.left - 1 }
    | _ => none

/-- How far the calls are from their end at most. -/
def cost (s : Session) : Nat := s.call.cost + 3 * s.left

variable {relaxed : Bool}

/-- What must be true of a step on some requests. The read with the head of a request has all of it, and nothing of the
    next request; what it leaves of the body is a length that is positive as an `int`. -/
def Apart (requests : List (Message relaxed)) (s : Session) : SessionAct → Prop
  | .recv .run =>
    match requests[s.results.length]? with
    | some r =>
      match s.call.pc with
      | .headParse => r.head.length ≤ s.call.data.length ∧ s.call.data.length ≤ r.bytes.length
      | .length => r.body.length ≤ s.call.data.length ∨ 0 < int32 (r.body.length - s.call.data.length)
      | _ => True
    | none => True
  | _ => True

instance (requests : List (Message relaxed)) (s : Session) (a : SessionAct) : Decidable (Apart requests s a) := by
  induction a using SessionAct.casesOn with
  | recv a =>
    induction a using RecvAct.casesOn with
    | read count => unfold Apart; infer_instance
    | run =>
      dsimp only [Apart]
      induction requests[s.results.length]? using Option.casesOn with
      | none => infer_instance
      | some r =>
        dsimp only
        induction s.call.pc using RequestPc.casesOn <;> infer_instance
  | again => unfold Apart; infer_instance

/-- A read ends inside no head, when so many bytes are left behind it. -/
def HeadsWhole : List (Message relaxed) → Nat → Prop
  | [], _ => True
  | r :: requests, left =>
    (left ≤ r.body.length + (requests.flatMap Message.bytes).length ∨
      r.bytes.length + (requests.flatMap Message.bytes).length ≤ left) ∧ HeadsWhole requests left

instance (requests : List (Message relaxed)) (left : Nat) : Decidable (HeadsWhole requests left) := by
  induction requests with
  | nil => exact isTrue trivial
  | cons r requests ih => unfold HeadsWhole; infer_instance

/-- Every head lies in one read, whatever else is in the read. -/
def Delivered (requests : List (Message relaxed)) (s : Session) : SessionAct → Prop
  | .recv (.read count) => HeadsWhole requests (s.call.input.drop count).length
  | _ => True

instance (requests : List (Message relaxed)) (s : Session) (a : SessionAct) : Decidable (Delivered requests s a) := by
  induction a using SessionAct.casesOn with
  | recv a => induction a using RecvAct.casesOn <;> unfold Delivered <;> infer_instance
  | again => unfold Delivered; infer_instance

/-- The calls return the requests in order, each leaving what follows its request, nothing is thrown, and as long as a
    call has not returned or more are to come the code goes on, each step bringing the end nearer. -/
structure InOrder (requests : List (Message relaxed)) (s : Session) : Prop where
  thrown : s.call.pc ≠ .fault
  results : s.results = (requests.take s.results.length).map fun r => some r.request
  returned : ∀ b, s.call.pc = .returned b → b = true ∧
    some s.call.parser.data = requests[s.results.length]?.map Message.request ∧
    s.call.input = (requests.drop (s.results.length + 1)).flatMap Message.bytes
  count : s.results.length + 1 + s.left = requests.length
  goesOn : (∃ a t, s.step a = some t) ∨ s.left = 0 ∧ ∃ b, s.call.pc = .returned b
  nearer : ∀ a t, s.step a = some t → t.cost < s.cost

end Session
end Http
end MyHttp

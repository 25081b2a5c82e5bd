import MyHttp.Http.ClientParser

/-! `HttpConnection::recvResponse` against a peer, one read or one stretch of code between two reads as a step. What the
    peer sends is a finite stream; how much of it a read gets is up to the environment. -/

namespace MyHttp
namespace Http

open Lib.CString Lib.Machine

/-- Where `recvResponse` is. -/
inductive RecvPc where
  | headRead
  | headParse
  | chunkRead
  | chunkParse
  /-- before `len -= 2` -/
  | trim
  /-- before the chunk is appended -/
  | take
  | leftRead
  /-- before the body is made from the content-length -/
  | length
  /-- in `readFixSize` -/
  | fixRead
  | returned (response : Bool)
  /-- an exception, or a failed assertion -/
  | fault
deriving DecidableEq, Repr

structure RecvResponse where
  pc : RecvPc
  /-- `http.response.buffer_size` -/
  buffSize : Nat
  /-- `std::string::max_size()` -/
  maxSize : Nat
  /-- the bytes of the buffer that were received and not consumed -/
  data : Bytes
  offset : Int
  len : Int
  /-- what is left to read of a chunk, or in `readFixSize` -/
  left : Int
  /-- the length `readFixSize` was called with -/
  fixSize : Int
  body : Bytes
  parser : HttpResponseParser
  /-- what the peer will still send before it closes -/
  input : Bytes
deriving DecidableEq, Repr

inductive RecvAct where
  /-- a read that gets some bytes, or none when the peer has closed -/
  | read (count : Nat)
  | run
deriving DecidableEq, Repr

namespace RecvResponse

def init (buffSize maxSize : Nat) (input : Bytes) : RecvResponse :=
  ⟨.headRead, buffSize, maxSize, [], 0, 0, 0, 0, [], .new, input⟩

/-- How many bytes the next read asks for. -/
def asked (s : RecvResponse) : Int :=
  match s.pc with
  | .headRead => s.buffSize - s.offset
  | .chunkRead => s.buffSize - s.len
  | .leftRead => if s.left > int32 s.buffSize then int32 s.buffSize else s.left
  | .fixRead => s.left
  | _ => 0

/-- What a read may return. -/
def readable (s : RecvResponse) (count : Nat) : Bool :=
  if s.input = [] ∨ s.asked = 0 then count = 0 else 0 < count && count ≤ s.input.length && count ≤ s.asked

def finish (s : RecvResponse) : RecvResponse :=
  { s with pc := .returned true, parser := { s.parser with data := { s.parser.data with body := s.body } } }

/-- The end of the loop over the chunks. -/
def nextChunk (s : RecvResponse) : RecvResponse :=
  if s.parser.parser.chunksDone then s.finish else { s with pc := .chunkRead }

def read (s : RecvResponse) (count : Nat) : RecvResponse :=
  let got := s.input.take count
  let s := { s with input := s.input.drop count }
  if count = 0 then { s with pc := .returned false }
  else
    match s.pc with
    | .headRead =>
      { s with pc := .headParse, data := s.data.take s.offset.toNat ++ got, len := int32 (count + s.offset) }
    | .chunkRead => { s with pc := .chunkParse, data := s.data.take s.len.toNat ++ got, len := int32 (s.len + count) }
    | .leftRead =>
      if s.body.length + count > s.maxSize then { s with pc := .fault }
      else
        let s := { s with body := s.body ++ got, left := s.left - count }
        if s.left > 0 then s else { s with len := 0, data := [] }.nextChunk
    | _ =>
      let s := { s with body := s.body ++ got, left := s.left - count }
      if s.left > 0 then s
      else if int32 s.fixSize ≤ 0 then { s with pc := .returned false } else s.finish

/-- The head is parsed as far as it has come. -/
def headParse (s : RecvResponse) : RecvResponse :=
  let (parser, nparser) := s.parser.execute s.data false
  if parser.parser.bodyStart > s.len then { s with pc := .fault }
  else
    let s := { s with parser, data := s.data.drop nparser }
    if parser.hasError then { s with pc := .returned false }
    else
      let s := { s with offset := s.len - nparser }
      if s.offset = int32 s.buffSize then { s with pc := .returned false }
      else if parser.isFinished then
        if parser.parser.chunked then { s with pc := .chunkRead, body := [], len := s.offset }
        else { s with pc := .length }
      else { s with pc := .headRead }

def chunkParse (s : RecvResponse) : RecvResponse :=
  let (parser, nparse) := s.parser.execute s.data true
  let s := { s with parser, data := s.data.drop nparse }
  if parser.hasError then { s with pc := .returned false }
  else
    let s := { s with len := s.len - nparse }
    if s.len = int32 s.buffSize then { s with pc := .returned false }
    else { s with pc := if parser.isFinished then .trim else .chunkRead }

/-- `append` of a negative count, or of more than a string can hold, throws. -/
def take (s : RecvResponse) : RecvResponse :=
  let contentLen := s.parser.parser.contentLen
  if contentLen ≤ s.len then
    if contentLen < 0 ∨ s.body.length + contentLen > s.maxSize then { s with pc := .fault }
    else
      { s with
        body := s.body ++ s.data.take contentLen.toNat
        data := (s.data.drop contentLen.toNat).take (s.len - contentLen).toNat
        len := s.len - contentLen }.nextChunk
  else if s.len < 0 ∨ s.body.length + s.len > s.maxSize then { s with pc := .fault }
  else { s with pc := .leftRead, body := s.body ++ s.data.take s.len.toNat, left := contentLen - s.len }

/-- `resize` beyond `max_size()` throws. -/
def length (s : RecvResponse) : RecvResponse :=
  let length := int64 s.parser.getContentLength
  if length > 0 then
    if length > s.maxSize then { s with pc := .fault }
    else
      let count := if length ≥ s.offset then s.offset else length
      let s := { s with body := s.data.take count.toNat, len := count }
      if length - s.offset > 0 then
        { s with pc := .fixRead, left := length - s.offset, fixSize := length - s.offset }
      else s.finish
  else { s with pc := .returned true }

def step (s : RecvResponse) : RecvAct → Option RecvResponse
  | .read count =>
    match s.pc with
    | .headRead | .chunkRead | .leftRead | .fixRead => if s.readable count then some (s.read count) else none
    | _ => none
  | .run =>
    match s.pc with
    | .headParse => some s.headParse
    | .chunkParse => some s.chunkParse
    | .trim => some { s with pc := .take, len := s.len - 2 }
    | .take => some s.take
    | .length => some s.length
    | _ => none

variable {s t : RecvResponse}

theorem step_read {count : Nat} (h : s.step (.read count) = some t) :
    s.readable count = true ∧ t = s.read count ∧
      (s.pc = .headRead ∨ s.pc = .chunkRead ∨ s.pc = .leftRead ∨ s.pc = .fixRead) := by
  simp only [step] at h
  split at h
  case h_5 => cases h
  all_goals
    split_ifs at h with hr
    exact ⟨hr, (Option.some.inj h).symm, by simp [*]⟩

theorem step_run (h : s.step .run = some t) :
    (s.pc = .headParse ∧ t = s.headParse) ∨ (s.pc = .chunkParse ∧ t = s.chunkParse) ∨
      (s.pc = .trim ∧ t = { s with pc := .take, len := s.len - 2 }) ∨ (s.pc = .take ∧ t = s.take) ∨
      (s.pc = .length ∧ t = s.length) := by
  simp only [step] at h
  split at h <;> cases h <;> simp [*]

end RecvResponse
end Http
end MyHttp

import MyHttp.Http.Connection
import MyHttp.Http.Http11Parser

/-! `HttpSession::recvRequest` against a client, one read or one stretch of code between two reads as a step. What the
    client sends is a finite stream; how much of it a read gets is up to the environment. -/

namespace MyHttp
namespace Http

open Lib.CString Lib.Machine Lib.Scan

/-- Where `recvRequest` is. -/
inductive RequestPc where
  | headRead
  | headParse
  /-- before the body is made from the content-length -/
  | length
  /-- in `readFixSize` -/
  | fixRead
  | returned (request : Bool)
  /-- an exception -/
  | fault
deriving DecidableEq, Repr

structure RecvRequest where
  pc : RequestPc
  /-- `http.request.buffer_size` -/
  buffSize : Nat
  /-- `std::string::max_size()` -/
  maxSize : Nat
  /-- the bytes of the buffer that were received and not consumed -/
  data : Bytes
  offset : Int
  len : Int
  /-- what is left to read in `readFixSize` -/
  left : Int
  /-- the length `readFixSize` was called with -/
  fixSize : Int
  /-- what the body has of its bytes -/
  body : Bytes
  /-- the size the body was resized to -/
  bodySize : Int
  parser : HttpRequestParser
  /-- how many bytes the parser has consumed; the code does not keep it -/
  consumed : Nat
  /-- what the client will still send before it closes -/
  input : Bytes
deriving DecidableEq, Repr

namespace RecvRequest

/-- A call on a stream, with the `uri_relaxed` its parser finds. -/
def init (buffSize maxSize : Nat) (uriRelaxed : Bool) (input : Bytes) : RecvRequest :=
  ⟨.headRead, buffSize, maxSize, [], 0, 0, 0, 0, [], 0, .new uriRelaxed, 0, input⟩

/-- How many bytes the next read asks for. -/
def asked (s : RecvRequest) : Int :=
  match s.pc with
  | .headRead => s.buffSize - s.offset
  | .fixRead => s.left
  | _ => 0

/-- What a read may return: never more than fits an `int`. -/
def readable (s : RecvRequest) (count : Nat) : Bool :=
  if s.input = [] ∨ s.asked = 0 then count = 0
  else 0 < count && count ≤ s.input.length && count ≤ s.asked && count < 2 ^ 31

def finish (s : RecvRequest) : RecvRequest :=
  { s with pc := .returned true, parser := { s.parser with data := { s.parser.data with body := s.body } } }

def read (s : RecvRequest) (count : Nat) : RecvRequest :=
  let got := s.input.take count
  let s := { s with input := s.input.drop count }
  if count = 0 then { s with pc := .returned false }
  else
    match s.pc with
    | .headRead =>
      { s with pc := .headParse, data := s.data.take s.offset.toNat ++ got, len := int32 (count + s.offset) }
    | _ =>
      let s := { s with body := s.body ++ got, left := s.left - count }
      if s.left > 0 then s
      else if int32 s.fixSize ≤ 0 then { s with pc := .returned false } else s.finish

/-- The head is parsed as far as it has come. -/
def headParse (s : RecvRequest) : RecvRequest :=
  let (parser, nparser) := s.parser.execute s.data
  if parser.thrown then { s with pc := .fault }
  else
    let s := { s with parser, data := s.data.drop nparser, consumed := s.consumed + nparser }
    if parser.hasError then { s with pc := .returned false }
    else
      let s := { s with offset := s.len - nparser }
      if s.offset = int32 s.buffSize then { s with pc := .returned false }
      else { s with pc := if parser.isFinished then .length else .headRead }

/-- `resize` beyond `max_size()` throws. What the buffer has beyond the body is dropped with it. -/
def length (s : RecvRequest) : RecvRequest :=
  let length := int64 s.parser.getContentLength
  if length > 0 then
    if length > s.maxSize then { s with pc := .fault }
    else
      let count := if length ≥ s.offset then s.offset else length
      let s := { s with bodySize := length, body := s.data.take count.toNat, len := count }
      if length - s.offset > 0 then
        { s with pc := .fixRead, left := length - s.offset, fixSize := length - s.offset }
      else s.finish
  else { s with pc := .returned true }

def step (s : RecvRequest) : RecvAct → Option RecvRequest
  | .read count =>
    match s.pc with
    | .headRead | .fixRead => if s.readable count then some (s.read count) else none
    | _ => none
  | .run =>
    match s.pc with
    | .headParse => some s.headParse
    | .length => some s.length
    | _ => none

variable {s t : RecvRequest}

theorem step_read {count : Nat} (h : s.step (.read count) = some t) :
    s.readable count = true ∧ t = s.read count ∧ (s.pc = .headRead ∨ s.pc = .fixRead) := by
  simp only [step] at h
  split at h
  case h_3 => cases h
  all_goals
    split_ifs at h with hr
    exact ⟨hr, (Option.some.inj h).symm, by simp [*]⟩

theorem step_run (h : s.step .run = some t) :
    (s.pc = .headParse ∧ t = s.headParse) ∨ (s.pc = .length ∧ t = s.length) := by
  simp only [step] at h
  split at h <;> cases h <;> simp [*]

/-- The call ends with the parse, or it goes on behind what was consumed. -/
theorem headParse_cases (s : RecvRequest) :
    (s.headParse.pc = .fault ∧ (s.parser.run s.data).thrown = true) ∨
      (s.headParse.pc = .returned false ∧ ((s.parser.run s.data).hasError = true ∨
        s.len - (s.parser.run s.data).parser.nread = int32 s.buffSize)) ∨
      ((s.parser.run s.data).hasError = false ∧
        s.headParse =
          { s with
            pc := if (s.parser.run s.data).isFinished then .length else .headRead
            data := s.data.drop (s.parser.run s.data).parser.nread
            offset := s.len - (s.parser.run s.data).parser.nread
            parser := s.parser.run s.data
            consumed := s.consumed + (s.parser.run s.data).parser.nread }) := by
  unfold headParse HttpRequestParser.execute
  dsimp only
  split
  · rename_i hthrown
    exact Or.inl ⟨rfl, hthrown⟩
  · split
    · rename_i herr
      exact Or.inr (Or.inl ⟨rfl, Or.inl herr⟩)
    · rename_i herr
      split
      · rename_i hfull
        exact Or.inr (Or.inl ⟨rfl, Or.inr hfull⟩)
      · exact Or.inr (Or.inr ⟨Bool.eq_false_iff.mpr herr, rfl⟩)

/-- A read that the stream leaves something for gets some of it. -/
theorem read_some {count : Nat} (h : s.readable count = true) (hinput : s.input ≠ []) (hasked : s.asked ≠ 0) :
    0 < count ∧ count ≤ s.input.length ∧ count ≤ s.asked ∧ count < 2 ^ 31 := by
  unfold readable at h
  rw [if_neg (not_or.mpr ⟨hinput, hasked⟩)] at h
  simp only [Bool.and_eq_true, decide_eq_true_eq] at h
  exact ⟨h.1.1.1, h.1.1.2, h.1.2, h.2⟩

theorem readable_exists (h : 0 ≤ s.asked) : ∃ count, s.readable count = true := by
  by_cases hnone : s.input = [] ∨ s.asked = 0
  · exact ⟨0, by simp [readable, hnone]⟩
  · obtain ⟨hinput, hasked⟩ := not_or.mp hnone
    have hlen : 0 < s.input.length := List.length_pos_iff.mpr hinput
    refine ⟨1, ?_⟩
    rw [readable, if_neg hnone]
    simp only [Bool.and_eq_true, decide_eq_true_eq]
    exact ⟨⟨⟨Nat.one_pos, hlen⟩, by omega⟩, by omega⟩

/-- The sizes are not changed, and the close flag of the request is the constructor's all along the call. -/
theorem step_frame {a : RecvAct} (h : s.step a = some t) :
    t.buffSize = s.buffSize ∧ t.maxSize = s.maxSize ∧ t.parser.data.close = s.parser.data.close := by
  cases a with
  | read count =>
    obtain ⟨-, rfl, hpc⟩ := step_read h
    rcases hpc with hpc | hpc <;> simp only [read, finish, hpc] <;> split_ifs <;> exact ⟨rfl, rfl, rfl⟩
  | run =>
    rcases step_run h with ⟨-, rfl⟩ | ⟨-, rfl⟩
    · unfold headParse HttpRequestParser.execute
      dsimp only
      split_ifs
      · exact ⟨rfl, rfl, rfl⟩
      all_goals exact ⟨rfl, rfl, HttpRequestParser.data_run.1⟩
    · unfold length finish
      dsimp only
      split_ifs <;> exact ⟨rfl, rfl, rfl⟩

theorem step_uriRelaxed {a : RecvAct} (h : s.step a = some t) :
    t.parser.parser.uriRelaxed = s.parser.parser.uriRelaxed := by
  cases a with
  | read count =>
    obtain ⟨-, rfl, hpc⟩ := step_read h
    rcases hpc with hpc | hpc <;> simp only [read, finish, hpc] <;> split_ifs <;> rfl
  | run =>
    rcases step_run h with ⟨-, rfl⟩ | ⟨-, rfl⟩
    · unfold headParse HttpRequestParser.execute
      dsimp only
      split_ifs
      · rfl
      all_goals exact HttpRequestParser.uriRelaxed_run
    · unfold length finish
      dsimp only
      split_ifs <;> rfl

/-- How far a call is from its end at most. -/
def cost (s : RecvRequest) : Nat :=
  3 * s.input.length +
    match s.pc with
    | .headRead | .fixRead => 2
    | .headParse => 4
    | .length => 3
    | .returned _ | .fault => 0

theorem headParse_input (s : RecvRequest) : s.headParse.input = s.input := by
  unfold headParse
  dsimp only
  split_ifs <;> rfl

theorem length_input (s : RecvRequest) : s.length.input = s.input := by
  unfold length finish
  dsimp only
  split_ifs <;> rfl

theorem headParse_pc (s : RecvRequest) :
    s.headParse.pc = .fault ∨ s.headParse.pc = .returned false ∨ s.headParse.pc = .length ∨ s.headParse.pc = .headRead := by
  rcases s.headParse_cases with ⟨hpc, -⟩ | ⟨hpc, -⟩ | ⟨-, hnext⟩
  · exact Or.inl hpc
  · exact Or.inr (Or.inl hpc)
  · rw [hnext]
    dsimp only
    split
    · exact Or.inr (Or.inr (Or.inl rfl))
    · exact Or.inr (Or.inr (Or.inr rfl))

theorem length_pc (s : RecvRequest) : s.length.pc = .fault ∨ s.length.pc = .fixRead ∨ s.length.pc = .returned true := by
  unfold length finish
  dsimp only
  split_ifs <;> simp

theorem read_pc (s : RecvRequest) (count : Nat) (hpc : s.pc = .headRead ∨ s.pc = .fixRead) :
    (∃ b, (s.read count).pc = .returned b) ∨
      0 < count ∧ (s.pc = .headRead ∧ (s.read count).pc = .headParse ∨ s.pc = .fixRead ∧ (s.read count).pc = .fixRead) := by
  by_cases hcount : count = 0
  · exact Or.inl ⟨false, by simp [read, hcount]⟩
  · have hpos : 0 < count := Nat.pos_of_ne_zero hcount
    rcases hpc with hpc | hpc <;> simp only [read, finish, hcount, hpc, if_false]
    · exact Or.inr ⟨hpos, Or.inl ⟨trivial, trivial⟩⟩
    · split_ifs
      · exact Or.inr ⟨hpos, Or.inr ⟨trivial, rfl⟩⟩
      · exact Or.inl ⟨false, rfl⟩
      · exact Or.inl ⟨true, rfl⟩

theorem read_input {count : Nat} (s : RecvRequest) (hpc : s.pc = .headRead ∨ s.pc = .fixRead) :
    (s.read count).input = s.input.drop count := by
  rcases hpc with hpc | hpc <;> simp only [read, finish, hpc] <;> split_ifs <;> rfl

/-- The head is read on or parsed only after a read for it, or after a parse that has not come to its end. -/
theorem step_head {a : RecvAct} (h : s.step a = some t) (hpc : t.pc = .headRead ∨ t.pc = .headParse) :
    (∃ count, a = .read count ∧ t = s.read count ∧ s.pc = .headRead ∧ 0 < count ∧ t.pc = .headParse) ∨
      (a = .run ∧ t = s.headParse ∧ s.pc = .headParse ∧ t.pc = .headRead) := by
  cases a with
  | read count =>
    obtain ⟨-, rfl, hplace⟩ := step_read h
    rcases s.read_pc count hplace with ⟨b, hnext⟩ | ⟨hcount, ⟨hplace, hnext⟩ | ⟨-, hnext⟩⟩
    · rcases hpc with hpc | hpc <;> cases hnext.symm.trans hpc
    · exact Or.inl ⟨count, rfl, rfl, hplace, hcount, hnext⟩
    · rcases hpc with hpc | hpc <;> cases hnext.symm.trans hpc
  | run =>
    rcases step_run h with ⟨hplace, rfl⟩ | ⟨-, rfl⟩
    · refine Or.inr ⟨rfl, rfl, hplace, ?_⟩
      rcases s.headParse_pc with hnext | hnext | hnext | hnext
      case inr.inr.inr => exact hnext
      all_goals rcases hpc with hpc | hpc <;> cases hnext.symm.trans hpc
    · rcases s.length_pc with hnext | hnext | hnext <;> rcases hpc with hpc | hpc <;> cases hnext.symm.trans hpc

/-- Every step brings the end nearer. -/
theorem cost_step {a : RecvAct} (h : s.step a = some t) : t.cost < s.cost := by
  cases a with
  | read count =>
    obtain ⟨hr, rfl, hpc⟩ := step_read h
    have hlen : (s.read count).input.length = s.input.length - count := by rw [read_input s hpc, List.length_drop]
    have hsome : 0 < count → 0 < s.input.length := by
      intro hcount
      unfold readable at hr
      split at hr
      · have hzero := of_decide_eq_true hr
        omega
      · rename_i hnone
        exact List.length_pos_iff.mpr (not_or.mp hnone).1
    rcases s.read_pc count hpc with ⟨b, hb⟩ | ⟨hcount, ⟨hpc', hnext⟩ | ⟨hpc', hnext⟩⟩
    · rcases hpc with hpc | hpc <;> simp only [cost, hb, hpc, hlen] <;> omega
    · have hpos := hsome hcount
      simp only [cost, hnext, hpc', hlen]
      omega
    · have hpos := hsome hcount
      simp only [cost, hnext, hpc', hlen]
      omega
  | run =>
    rcases step_run h with ⟨hpc, rfl⟩ | ⟨hpc, rfl⟩
    · rcases s.headParse_pc with hnext | hnext | hnext | hnext <;>
        simp only [cost, hnext, hpc, headParse_input] <;> omega
    · rcases s.length_pc with hnext | hnext | hnext <;> simp only [cost, hnext, hpc, length_input] <;> omega

end RecvRequest
end Http
end MyHttp

import MyHttp.Http.Session
import MyHttp.Lib.Pieces
import MyHttp.Lib.Run

/-! The sizes of the requests that `recvRequest` returns. Where a head ends is a matter of the stream, not of the reads;
    the buffer bounds a read and not the head, since the parser consumes whatever a read has of it. -/

namespace MyHttp
namespace Http

open Lib.CString Lib.Machine Lib.Run Lib.Scan

/-- Where the head of a stream ends, when it has one. -/
def headEnd (relaxed : Bool) (stream : Bytes) : Option Nat :=
  let x := exec (Http11.table relaxed) (· = .done) (fun _ _ (u : Unit) => u) 0 1 () stream
  if 348 ≤ x.cs then some x.pos else none

namespace RecvRequest

variable {relaxed : Bool} {stream : Bytes} {maxBody : Nat} {s s' : RecvRequest}

/-- A request that is returned has a head that fits the buffer and a body of at most the largest size, and at no time is
    the body larger. -/
structure Limited (maxBody : Nat) (s : RecvRequest) : Prop where
  head : s.pc = .returned true → s.consumed ≤ s.buffSize
  body : s.pc = .returned true → s.parser.data.body.length ≤ maxBody
  resized : s.bodySize ≤ maxBody

/-- The content-length that a head has got by its end, as the `int64_t` it becomes, is not above the largest size. -/
def Within (maxBody : Nat) (s : RecvRequest) : RecvAct → Prop
  | .read _ => True
  | .run => s.pc = .length → int64 s.parser.getContentLength ≤ maxBody

instance (maxBody : Nat) (s : RecvRequest) (a : RecvAct) : Decidable (Within maxBody s a) := by
  induction a using RecvAct.casesOn <;> unfold Within <;> infer_instance

/-- A part of the stream is behind the parser, which is in the state it leads to. -/
structure Behind (relaxed : Bool) (taken : Bytes) (s : RecvRequest) : Prop where
  uriRelaxed : s.parser.parser.uriRelaxed = relaxed
  cs : through (Http11.table relaxed) (· = .done) 1 taken = some s.parser.parser.cs
  consumed : s.consumed = taken.length
  body : s.parser.data.body = []
  bodySize : s.bodySize = 0

/-- What is consumed and how large the body is, at each place. -/
def Holds (relaxed : Bool) (stream : Bytes) (s : RecvRequest) : Prop :=
  match s.pc with
  | .headRead => ∃ taken, stream = taken ++ s.input ∧ Behind relaxed taken s ∧ s.offset = 0
  | .headParse => ∃ taken, stream = taken ++ (s.data ++ s.input) ∧ Behind relaxed taken s ∧ s.len = s.data.length
  | .length =>
    headEnd relaxed stream = some s.consumed ∧ s.parser.data.body = [] ∧ s.bodySize = 0 ∧ 0 ≤ s.offset
  | .fixRead =>
    headEnd relaxed stream = some s.consumed ∧ s.bodySize = max 0 (int64 s.parser.getContentLength) ∧
      s.body.length + s.left ≤ s.bodySize
  | .returned request =>
    request = true → headEnd relaxed stream = some s.consumed ∧
      s.bodySize = max 0 (int64 s.parser.getContentLength) ∧ s.parser.data.body.length ≤ s.bodySize
  | .fault => True

theorem holds_init (buffSize maxSize : Nat) : Holds relaxed stream (init buffSize maxSize relaxed stream) :=
  ⟨[], rfl, ⟨rfl, rfl, rfl, rfl, rfl⟩, rfl⟩

theorem headEnd_of_accepts {taken xs ys : Bytes} {cs final : Nat}
    (htaken : through (Http11.table relaxed) (· = .done) 1 taken = some cs)
    (hxs : Accepts (Http11.table relaxed) (· = .done) cs xs final) (hfinal : 348 ≤ final) :
    headEnd relaxed (taken ++ (xs ++ ys)) = some (taken.length + xs.length) := by
  simp only [headEnd]
  rw [exec_append htaken, hxs.exec_append.1, hxs.exec_append.2, if_pos hfinal, Nat.zero_add]

theorem Holds.read (h : Holds relaxed stream s) {count : Nat} (hr : s.readable count = true)
    (hpc : s.pc = .headRead ∨ s.pc = .fixRead) : Holds relaxed stream (s.read count) := by
  by_cases hc : count = 0
  · subst hc
    simp [RecvRequest.read, Holds]
  have hsome : s.input ≠ [] ∧ s.asked ≠ 0 := by
    rw [← not_or]
    intro hnone
    rw [readable, if_pos hnone] at hr
    exact hc (of_decide_eq_true hr)
  obtain ⟨-, hinput, hasked, hsmall⟩ := read_some hr hsome.1 hsome.2
  have hgot : (s.input.take count).length = count := List.length_take_of_le hinput
  rcases hpc with hpc | hpc <;> simp only [Holds, hpc] at h <;> simp only [asked, hpc] at hasked <;>
    simp only [RecvRequest.read, hc, hpc, if_false]
  · obtain ⟨taken, hstream, hbehind, hoffset⟩ := h
    have hint : int32 (count + 0) = count := by
      rw [Int.add_zero]
      exact int32_eq (Int.natCast_nonneg _) (by omega)
    rw [hoffset, hint, Int.toNat_zero, List.take_zero, List.nil_append]
    refine ⟨taken, ?_, { hbehind with }, ?_⟩
    · rw [List.take_append_drop]
      exact hstream
    · dsimp only
      rw [hgot]
  · obtain ⟨hend, hsize, hleft⟩ := h
    have hlen : (s.body ++ s.input.take count).length = s.body.length + count := by rw [List.length_append, hgot]
    split_ifs with hmore hbad
    · refine ⟨hend, hsize, ?_⟩
      dsimp only
      rw [hlen]
      omega
    · intro hrequest
      cases hrequest
    · refine fun _ => ⟨hend, hsize, ?_⟩
      simp only [finish]
      rw [hlen]
      omega

theorem Holds.headParse (h : Holds relaxed stream s) (hpc : s.pc = .headParse) : Holds relaxed stream s.headParse := by
  simp only [Holds, hpc] at h
  obtain ⟨taken, hstream, ⟨hrelaxed, hcs, hconsumed, hbody, hsize⟩, hlen⟩ := h
  subst hrelaxed
  rcases s.headParse_cases with ⟨hfault, -⟩ | ⟨hnull, -⟩ | ⟨herr, hnext⟩
  · simp only [Holds, hfault]
  · simp [Holds, hnull]
  rw [hnext]
  have hbody' : (s.parser.run s.data).data.body = [] := HttpRequestParser.data_run.2.trans hbody
  rcases s.parser.run_cases s.data with ⟨hcs', hnread⟩ | hzero | ⟨xs, ys, hdata, haccepts, hnread⟩
  · -- the head goes on in the next read
    have hlt := (Http11.through_state hcs' (Http11.through_state hcs ⟨by decide, by decide⟩)).2
    have hnot : (s.parser.run s.data).isFinished = false := decide_eq_false (Nat.not_le_of_lt hlt)
    rw [hnot, hnread]
    refine ⟨taken ++ s.data, ?_, ⟨HttpRequestParser.uriRelaxed_run, ?_, ?_, hbody', hsize⟩, ?_⟩
    · rw [List.append_assoc]
      exact hstream
    · rw [through_append, hcs]
      exact hcs'
    · dsimp only
      rw [List.length_append, hconsumed]
    · dsimp only
      omega
  · -- no edge for a byte
    simp [HttpRequestParser.hasError, hzero] at herr
  · -- the end of the head
    have hfinal := Http11.final_of_accepts haccepts
    have hdone : (s.parser.run s.data).isFinished = true := decide_eq_true hfinal
    rw [hdone, hnread]
    refine ⟨?_, hbody', hsize, ?_⟩
    · rw [hstream, hdata, List.append_assoc, headEnd_of_accepts hcs haccepts hfinal, hconsumed]
    · have hle := congrArg List.length hdata
      rw [List.length_append] at hle
      dsimp only
      omega

theorem Holds.length (h : Holds relaxed stream s) (hpc : s.pc = .length) : Holds relaxed stream s.length := by
  simp only [Holds, hpc] at h
  obtain ⟨hend, hbody, hsize, hoffset⟩ := h
  unfold RecvRequest.length
  dsimp only
  by_cases hpos : int64 s.parser.getContentLength > 0
  · rw [if_pos hpos]
    split
    · trivial
    · have hmax : int64 s.parser.getContentLength = max 0 (int64 s.parser.getContentLength) := by omega
      have htake : ∀ n : Int, 0 ≤ n → ((s.data.take n.toNat).length : Int) ≤ n := by
        intro n hn
        have hle := List.length_take_le n.toNat s.data
        omega
      by_cases hmore : int64 s.parser.getContentLength - s.offset > 0
      · rw [if_pos hmore, if_pos (by omega)]
        have hle := htake s.offset hoffset
        exact ⟨hend, hmax, by dsimp only; omega⟩
      · rw [if_neg hmore]
        intro _
        refine ⟨hend, hmax, ?_⟩
        dsimp only [finish]
        refine Int.le_trans (htake _ ?_) ?_ <;> split <;> omega
  · rw [if_neg hpos]
    intro _
    refine ⟨hend, ?_, ?_⟩
    · dsimp only
      omega
    · dsimp only
      rw [hbody, hsize]
      exact Int.le_refl 0

theorem Holds.step (h : Holds relaxed stream s) {a : RecvAct} (hs : s.step a = some s') : Holds relaxed stream s' := by
  cases a with
  | read count =>
    obtain ⟨hr, rfl, hpc⟩ := step_read hs
    exact h.read hr hpc
  | run =>
    rcases step_run hs with ⟨hpc, rfl⟩ | ⟨hpc, rfl⟩
    · exact h.headParse hpc
    · exact h.length hpc

/-- Only the making of the body changes its size. -/
theorem bodySize_step {a : RecvAct} (hs : s.step a = some s') :
    s'.bodySize = s.bodySize ∨ a = .run ∧ s.pc = .length ∧ s'.bodySize = int64 s.parser.getContentLength := by
  cases a with
  | read count =>
    left
    obtain ⟨-, rfl, hpc⟩ := step_read hs
    rcases hpc with hpc | hpc <;> simp only [RecvRequest.read, finish, hpc] <;> split_ifs <;> rfl
  | run =>
    rcases step_run hs with ⟨-, rfl⟩ | ⟨hpc, rfl⟩
    · left
      unfold RecvRequest.headParse
      dsimp only
      split_ifs <;> rfl
    · unfold RecvRequest.length finish
      dsimp only
      split_ifs
      all_goals first
        | exact Or.inl rfl
        | exact Or.inr ⟨rfl, hpc, rfl⟩

theorem reach_holds {ok : RecvRequest → RecvAct → Prop} {buffSize maxSize : Nat}
    (h : Reach step ok (init buffSize maxSize relaxed stream) s) : Holds relaxed stream s ∧ s.buffSize = buffSize :=
  h.invariant (P := fun s => Holds relaxed stream s ∧ s.buffSize = buffSize) ⟨holds_init buffSize maxSize, rfl⟩
    fun _ _ _ hi _ hs => ⟨hi.1.step hs, (step_frame hs).1.trans hi.2⟩

/-- A request that is returned is within the limits just when the head of the stream and the content-length are. -/
theorem limited_iff {ok : RecvRequest → RecvAct → Prop} {buffSize maxSize : Nat}
    (h : Reach step ok (init buffSize maxSize relaxed stream) s) (hpc : s.pc = .returned true) :
    Limited maxBody s ↔
      (∀ n, headEnd relaxed stream = some n → n ≤ buffSize) ∧ int64 s.parser.getContentLength ≤ maxBody := by
  obtain ⟨hholds, rfl⟩ := reach_holds h
  simp only [Holds, hpc] at hholds
  obtain ⟨hend, hsize, hbody⟩ := hholds trivial
  constructor
  · rintro ⟨hhead, -, hresized⟩
    refine ⟨fun n hn => ?_, ?_⟩
    · obtain rfl := Option.some.inj (hend.symm.trans hn)
      exact hhead hpc
    · omega
  · rintro ⟨hhead, hlength⟩
    exact ⟨fun _ => hhead _ hend, fun _ => by omega, by omega⟩

/-- On a stream whose head fits the buffer, the limits are kept in every run in which no head ends with a content-length
    above the largest size. -/
theorem limits_kept {buffSize maxSize : Nat} (hhead : ∀ n, headEnd relaxed stream = some n → n ≤ buffSize)
    (h : Reach step (Within maxBody) (init buffSize maxSize relaxed stream) s) : Limited maxBody s := by
  have hresized : s.bodySize ≤ maxBody := by
    refine h.invariant (P := fun s => s.bodySize ≤ (maxBody : Int)) (Int.natCast_nonneg _) fun s a t hi hok hs => ?_
    rcases bodySize_step hs with heq | ⟨rfl, hpc, heq⟩
    · rw [heq]
      exact hi
    · rw [heq]
      exact hok hpc
  obtain ⟨hholds, rfl⟩ := reach_holds h
  refine ⟨fun hpc => ?_, fun hpc => ?_, hresized⟩
  all_goals
    simp only [Holds, hpc] at hholds
    obtain ⟨hend, -, hbody⟩ := hholds trivial
  · exact hhead _ hend
  · omega

/-- A request with a body of three bytes, in three reads. -/
theorem limits_kept_body : ∃ s, s.pc = .returned true ∧ s.parser.data.body = ascii "abc" ∧ Limited 3 s := by
  let stream := ascii "POST /a HTTP/1.1\r\nHost: b\r\nContent-Length: 3\r\n\r\nabc"
  let s := (exec step (Within 3) (init 64 (2 ^ 62) false stream) [.read 27, .run, .read 21, .run, .run, .read 3]).get
    (by decide +kernel)
  have h : Reach step (Within 3) (init 64 (2 ^ 62) false stream) s := reach_of_exec (Option.some_get _).symm
  exact ⟨s, by decide +kernel, by decide +kernel, limits_kept (by decide +kernel) h⟩

/-- With the default sizes, a content-length of one byte more than the largest size. -/
theorem resized_beyond : ¬∀ buffSize maxSize relaxed stream maxBody s,
    Reach step (fun _ _ => True) (init buffSize maxSize relaxed stream) s → Limited maxBody s := by
  intro h
  let s := (exec step (fun _ _ => True) (init 4096 (2 ^ 62) false (ascii
      "GET / HTTP/1.1\r\ncontent-length: 67108865\r\n\r\n")) [.read 44, .run, .run]).get (by decide +kernel)
  have hr : Reach step (fun _ _ => True) (init 4096 (2 ^ 62) false _) s := reach_of_exec (Option.some_get _).symm
  have hsize : s.bodySize = 67108865 := by decide +kernel
  have hlimit := (h _ _ _ _ 67108864 s hr).resized
  rw [hsize] at hlimit
  exact absurd hlimit (by decide)

end RecvRequest
end Http
end MyHttp

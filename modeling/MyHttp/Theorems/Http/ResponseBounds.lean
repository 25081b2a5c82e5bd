import MyHttp.Http.Connection
import MyHttp.Lib.Run

/-! The bounds of `recvResponse`. They hold along every run in which, after each chunk header, the buffer holds at least the two
    bytes that are cut off, and the sizes the peer names fit into the types they are kept in. -/

namespace MyHttp
namespace Http
namespace RecvResponse

open Lib.CString Lib.Machine Lib.Run

variable {s s' : RecvResponse}

/-- The counts of the calls of `append`, `memmove`, `memcpy` and `execute` that come next, each with the number of bytes
    there are. -/
def counts (s : RecvResponse) : List (Int × Int) :=
  let valid : Int := s.data.length
  match s.pc with
  | .headParse => let nparser : Int := (s.parser.execute s.data false).2; [(s.len, valid), (s.len - nparser, valid - nparser)]
  | .chunkParse => let nparse : Int := (s.parser.execute s.data true).2; [(s.len, valid), (s.len - nparse, valid - nparse)]
  | .take =>
    let contentLen := s.parser.parser.contentLen
    if contentLen ≤ s.len then [(contentLen, valid), (s.len - contentLen, valid - contentLen)] else [(s.len, valid)]
  | .length =>
    let length := int64 s.parser.getContentLength
    if length > 0 then [(if length ≥ s.offset then s.offset else length, valid)] else []
  | _ => []

/-- The bytes the next read may write to. -/
def room (s : RecvResponse) : Int :=
  match s.pc with
  | .headRead => s.buffSize - s.offset
  | .chunkRead => s.buffSize - s.len
  | .fixRead => s.left
  | _ => s.buffSize

/-- `offset` and `len` are inside the buffer, no count is negative or beyond the bytes there are, nothing is thrown, and
    a response is returned only for what the parser has accepted. -/
structure Safe (s : RecvResponse) : Prop where
  offset : 0 ≤ s.offset ∧ s.offset ≤ s.buffSize
  len : 0 ≤ s.len ∧ s.len ≤ s.buffSize
  counts : ∀ c ∈ s.counts, 0 ≤ c.1 ∧ c.1 ≤ c.2
  asked : 0 ≤ s.asked ∧ s.asked ≤ s.room
  thrown : s.pc ≠ .fault
  accepted : s.pc = .returned true → s.parser.hasError = false ∧ s.parser.isFinished = true

/-- The buffer fits an `int`; no final state is left behind with a longer buffer; two bytes follow a chunk header, whose
    size is not negative; the body fits a string. -/
def Ok (s : RecvResponse) : RecvAct → Prop
  | .read _ => s.buffSize < 2 ^ 31 ∧ s.body.length + s.buffSize ≤ s.maxSize
  | .run =>
    match s.pc with
    | .headParse => s.parser.parser.bodyStart ≤ s.data.length
    | .trim => 2 ≤ s.len ∧ 0 ≤ s.parser.parser.contentLen
    | .take => s.body.length + s.buffSize ≤ s.maxSize
    | .length => int64 s.parser.getContentLength ≤ s.maxSize
    | _ => True

instance (s : RecvResponse) (a : RecvAct) : Decidable (Ok s a) := by
  induction a using RecvAct.casesOn with
  | read count => unfold Ok; infer_instance
  | run =>
    dsimp only [Ok]
    induction s.pc using RecvPc.casesOn <;> infer_instance

/-- The parser has come to the end of a head or a chunk header. -/
def Accepted (s : RecvResponse) : Prop := s.parser.hasError = false ∧ s.parser.isFinished = true

/-- What `recvResponse` relies on at each place. -/
def Holds (s : RecvResponse) : Prop :=
  match s.pc with
  | .headRead => s.offset = s.data.length
  | .headParse | .chunkRead | .chunkParse => s.len = s.data.length ∧ s.buffSize < 2 ^ 31
  | .trim => s.len = s.data.length ∧ s.buffSize < 2 ^ 31 ∧ s.Accepted
  | .take => s.len + 2 = s.data.length ∧ 0 ≤ s.parser.parser.contentLen ∧ s.buffSize < 2 ^ 31 ∧ s.Accepted
  | .leftRead => 0 < s.left ∧ s.buffSize < 2 ^ 31 ∧ s.Accepted
  | .length => s.offset = s.data.length ∧ s.Accepted
  | .fixRead => 0 < s.left ∧ s.Accepted
  | .returned response => response = true → s.Accepted
  | .fault => False

structure Inv (s : RecvResponse) : Prop where
  offset : 0 ≤ s.offset ∧ s.offset ≤ s.buffSize
  len : 0 ≤ s.len ∧ s.len ≤ s.buffSize
  holds : s.Holds

theorem inv_init (buffSize maxSize : Nat) (input : Bytes) : Inv (init buffSize maxSize input) :=
  ⟨⟨Int.le_refl 0, Int.natCast_nonneg _⟩, ⟨Int.le_refl 0, Int.natCast_nonneg _⟩, rfl⟩

theorem Inv.safe (h : Inv s) : Safe s := by
  obtain ⟨hoffset, hlen, hholds⟩ := h
  unfold Holds at hholds
  refine ⟨hoffset, hlen, ?_, ?_, ?_, ?_⟩
  · intro c hc
    have hle : ∀ b, (s.parser.execute s.data b).2 ≤ s.data.length := fun _ => HttpResponseParser.execute_snd_le
    unfold counts at hc
    cases hpc : s.pc <;> simp only [hpc, List.not_mem_nil] at hc hholds
    case headParse =>
      have := hle false
      rcases List.mem_pair.mp hc with rfl | rfl <;> dsimp only <;> omega
    case chunkParse =>
      have := hle true
      rcases List.mem_pair.mp hc with rfl | rfl <;> dsimp only <;> omega
    case take =>
      split_ifs at hc
      · rcases List.mem_pair.mp hc with rfl | rfl <;> dsimp only <;> omega
      · obtain rfl := List.mem_singleton.mp hc
        dsimp only
        omega
    case length =>
      split_ifs at hc <;> simp only [List.mem_singleton, List.not_mem_nil] at hc <;> subst hc <;> dsimp only <;> omega
  · unfold asked room
    cases hpc : s.pc <;> simp only [hpc] at hholds ⊢
    case leftRead =>
      rw [int32_eq (Int.natCast_nonneg _) (by omega)]
      split_ifs <;> omega
    all_goals omega
  · intro hpc
    rw [hpc] at hholds
    exact hholds
  · intro hpc
    rw [hpc] at hholds
    exact hholds rfl

theorem finish_inv (hlen : 0 ≤ s.len ∧ s.len ≤ s.buffSize) (hoffset : 0 ≤ s.offset ∧ s.offset ≤ s.buffSize)
    (h : s.Accepted) : Inv s.finish :=
  ⟨hoffset, hlen, fun _ => h⟩

theorem nextChunk_inv (hlen : 0 ≤ s.len ∧ s.len ≤ s.buffSize) (hoffset : 0 ≤ s.offset ∧ s.offset ≤ s.buffSize)
    (h : s.Accepted) (hdata : s.len = s.data.length) (hsmall : s.buffSize < 2 ^ 31) : Inv s.nextChunk := by
  unfold nextChunk
  split_ifs
  · exact finish_inv hlen hoffset h
  · exact ⟨hoffset, hlen, hdata, hsmall⟩

/-- What was read fits behind what was there. -/
theorem readable_le {count : Nat} (h : s.readable count = true) (hc : count ≠ 0) :
    count ≤ s.input.length ∧ (count : Int) ≤ s.asked := by
  unfold readable at h
  split_ifs at h
  · exact absurd (by simpa using h) hc
  · simp only [Bool.and_eq_true, decide_eq_true_eq] at h
    exact ⟨h.1.2, h.2⟩

theorem Inv.read (h : Inv s) {count : Nat} (hok : Ok s (.read count)) (hr : s.readable count = true)
    (hpc : s.pc = .headRead ∨ s.pc = .chunkRead ∨ s.pc = .leftRead ∨ s.pc = .fixRead) : Inv (s.read count) := by
  obtain ⟨hoffset, hlen, hholds⟩ := h
  obtain ⟨hsmall, hfits⟩ := hok
  by_cases hc : count = 0
  · subst hc
    exact ⟨hoffset, hlen, by simp [RecvResponse.read, Holds]⟩
  obtain ⟨hinput, hasked⟩ := readable_le hr hc
  have hgot : (s.input.take count).length = count := List.length_take_of_le hinput
  unfold Holds at hholds
  unfold asked at hasked
  rcases hpc with hpc | hpc | hpc | hpc <;> simp only [hpc] at hholds hasked <;>
    simp only [RecvResponse.read, hc, hpc, if_false]
  · have hint : int32 (count + s.offset) = count + s.offset := int32_eq (by omega) (by omega)
    rw [hint]
    refine ⟨hoffset, ⟨?_, ?_⟩, ?_, hsmall⟩ <;> dsimp only
    · omega
    · omega
    · rw [List.length_append, hgot, List.length_take_of_le (by omega)]
      omega
  · have hint : int32 (s.len + count) = s.len + count := int32_eq (by omega) (by omega)
    rw [hint]
    refine ⟨hoffset, ⟨?_, ?_⟩, ?_, hsmall⟩ <;> dsimp only
    · omega
    · omega
    · rw [List.length_append, hgot, List.length_take_of_le (by omega)]
      omega
  · have hcount : count ≤ s.buffSize := by
      rw [int32_eq (Int.natCast_nonneg _) (by omega)] at hasked
      split_ifs at hasked <;> omega
    rw [if_neg (by omega)]
    split_ifs with hleft
    · exact ⟨hoffset, hlen, hleft, hsmall, hholds.2.2⟩
    · exact nextChunk_inv ⟨Int.le_refl 0, Int.natCast_nonneg _⟩ hoffset hholds.2.2 rfl hsmall
  · split_ifs with hleft
    · exact ⟨hoffset, hlen, by simp only [Holds]; exact ⟨hleft, hholds.2⟩⟩
    · exact ⟨hoffset, hlen, by simp [Holds]⟩
    · exact finish_inv hlen hoffset hholds.2

theorem Inv.headParse (h : Inv s) (hpc : s.pc = .headParse) (hok : Ok s .run) : Inv s.headParse := by
  obtain ⟨hoffset, hlen, hholds⟩ := h
  unfold Ok at hok
  unfold Holds at hholds
  simp only [hpc] at hok hholds
  have hle : (s.parser.execute s.data false).2 ≤ s.data.length := HttpResponseParser.execute_snd_le
  have hbody : (s.parser.execute s.data false).1.parser.bodyStart ≤ s.data.length :=
    HttpResponseParser.run_bodyStart_le hok
  unfold RecvResponse.headParse
  generalize s.parser.execute s.data false = x at hle hbody
  obtain ⟨parser, nparser⟩ := x
  dsimp only at hle hbody ⊢
  have hdrop : (s.data.drop nparser).length = s.data.length - nparser := List.length_drop
  have hnew : 0 ≤ s.len - nparser ∧ s.len - nparser ≤ s.buffSize := ⟨by omega, by omega⟩
  rw [if_neg (by omega)]
  split_ifs with herr hfull hfin hchunked
  · exact ⟨hoffset, hlen, by simp [Holds]⟩
  · exact ⟨hnew, hlen, by simp [Holds]⟩
  · exact ⟨hnew, hnew, by dsimp only; omega, hholds.2⟩
  · exact ⟨hnew, hlen, by dsimp only; omega, by simpa using herr, hfin⟩
  · exact ⟨hnew, hlen, by simp only [Holds]; omega⟩

theorem Inv.chunkParse (h : Inv s) (hpc : s.pc = .chunkParse) : Inv s.chunkParse := by
  obtain ⟨hoffset, hlen, hholds⟩ := h
  unfold Holds at hholds
  simp only [hpc] at hholds
  have hle : (s.parser.execute s.data true).2 ≤ s.data.length := HttpResponseParser.execute_snd_le
  unfold RecvResponse.chunkParse
  generalize s.parser.execute s.data true = x at hle
  obtain ⟨parser, nparse⟩ := x
  dsimp only at hle ⊢
  have hdrop : (s.data.drop nparse).length = s.data.length - nparse := List.length_drop
  have hnew : 0 ≤ s.len - nparse ∧ s.len - nparse ≤ s.buffSize := ⟨by omega, by omega⟩
  split_ifs with herr hfull hfin
  · exact ⟨hoffset, hlen, by simp [Holds]⟩
  · exact ⟨hoffset, hnew, by simp [Holds]⟩
  · exact ⟨hoffset, hnew, by dsimp only; omega, hholds.2, by simpa using herr, hfin⟩
  · exact ⟨hoffset, hnew, by dsimp only; omega, hholds.2⟩

theorem Inv.take (h : Inv s) (hpc : s.pc = .take) (hok : Ok s .run) : Inv s.take := by
  obtain ⟨hoffset, hlen, hholds⟩ := h
  unfold Ok at hok
  unfold Holds at hholds
  simp only [hpc] at hok hholds
  obtain ⟨hdata, hcontent, hsmall, haccepted⟩ := hholds
  unfold RecvResponse.take
  dsimp only
  by_cases hle : s.parser.parser.contentLen ≤ s.len
  · rw [if_pos hle, if_neg (by omega)]
    refine nextChunk_inv ⟨by dsimp only; omega, by dsimp only; omega⟩ hoffset haccepted ?_ hsmall
    dsimp only
    rw [List.length_take, List.length_drop]
    omega
  · rw [if_neg hle, if_neg (by omega)]
    exact ⟨hoffset, hlen, by dsimp only; omega, hsmall, haccepted⟩

theorem Inv.length (h : Inv s) (hpc : s.pc = .length) (hok : Ok s .run) : Inv s.length := by
  obtain ⟨hoffset, hlen, hholds⟩ := h
  unfold Ok at hok
  unfold Holds at hholds
  simp only [hpc] at hok hholds
  obtain ⟨hdata, haccepted⟩ := hholds
  unfold RecvResponse.length
  dsimp only
  have hcount : 0 ≤ (if int64 s.parser.getContentLength ≥ s.offset then s.offset else
      int64 s.parser.getContentLength) ∨ int64 s.parser.getContentLength ≤ 0 := by
    split_ifs <;> omega
  have hcount' : (if int64 s.parser.getContentLength ≥ s.offset then s.offset else
      int64 s.parser.getContentLength) ≤ s.buffSize := by
    split_ifs <;> omega
  by_cases hpos : int64 s.parser.getContentLength > 0
  · rw [if_pos hpos, if_neg (by omega)]
    have hnew := And.intro (hcount.resolve_right (by omega)) hcount'
    by_cases hleft : int64 s.parser.getContentLength - s.offset > 0
    · rw [if_pos hleft]
      exact ⟨hoffset, hnew, hleft, haccepted⟩
    · rw [if_neg hleft]
      exact finish_inv hnew hoffset haccepted
  · rw [if_neg hpos]
    exact ⟨hoffset, hlen, fun _ => haccepted⟩

theorem Inv.trim (h : Inv s) (hpc : s.pc = .trim) (hok : Ok s .run) : Inv { s with pc := .take, len := s.len - 2 } := by
  obtain ⟨hoffset, hlen, hholds⟩ := h
  unfold Ok at hok
  unfold Holds at hholds
  simp only [hpc] at hok hholds
  refine ⟨hoffset, ⟨?_, ?_⟩, ?_, hok.2, hholds.2⟩ <;> dsimp only <;> omega

theorem Inv.step (h : Inv s) {a : RecvAct} (hok : Ok s a) (hs : s.step a = some s') : Inv s' := by
  cases a with
  | read count =>
    obtain ⟨hr, rfl, hpc⟩ := step_read hs
    exact h.read hok hr hpc
  | run =>
    rcases step_run hs with ⟨hpc, rfl⟩ | ⟨hpc, rfl⟩ | ⟨hpc, rfl⟩ | ⟨hpc, rfl⟩ | ⟨hpc, rfl⟩
    · exact h.headParse hpc hok
    · exact h.chunkParse hpc
    · exact h.trim hpc hok
    · exact h.take hpc hok
    · exact h.length hpc hok

end RecvResponse
end Http
end MyHttp

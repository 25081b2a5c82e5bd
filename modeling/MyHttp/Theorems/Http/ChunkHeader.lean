import MyHttp.Theorems.Http.HeadCuts

/-! What the parser makes of the line of a chunk header, and of its first digits when the line is cut. -/

namespace MyHttp
namespace Http

open Lib.CString Lib.Machine Lib.Scan

theorem Client.next_xdigit : ∀ c, isxdigit c = true →
    (next Client.table 1 c).map (fun e => (e.target, e.actions)) = some (2, [.mark]) ∧
      (next Client.table 2 c).map (fun e => (e.target, e.actions)) = some (2, []) := by
  refine forall_byte ?_
  decide +kernel

/-! ### Chunks -/

variable {c : Chunk} {cs : List Chunk}

theorem ended_cons : Ended (c :: cs) ↔ (c.data = [] ∧ cs = []) ∨ (c.data ≠ [] ∧ Ended cs) := by
  cases cs with
  | nil => simp [Ended]
  | cons d cs => simp [Ended]

/-- The line of a header has its only line feed at the end. -/
theorem line_whole {data rest : Bytes} (hline : data ++ rest = c.size ++ crlf) (hlf : 10 ∈ data) : rest = [] := by
  obtain rfl | ⟨rest, z, rfl⟩ := List.eq_nil_or_concat rest
  · rfl
  · have hcut : (data ++ rest) ++ [z] = (c.size ++ [13]) ++ [10] := by simpa [crlf] using hline
    obtain ⟨hcut, -⟩ := List.append_inj' hcut rfl
    have hmem : (10 : UInt8) ∈ c.size ++ [13] := hcut ▸ List.mem_append_left _ hlf
    rcases List.mem_append.mp hmem with hmem | hmem
    · exact absurd (c.hex _ hmem) (by decide)
    · exact absurd hmem (by decide)

/-- A chunk without some zeros at the front of its size. -/
def Chunk.dropZeros (c : Chunk) (zeros size : Bytes) (hsize : c.size = zeros ++ size) (hne : size ≠ [])
    (hzeros : ∀ z ∈ zeros, z = 48) : Chunk where
  size := size
  data := c.data
  nonempty := hne
  hex z hz := c.hex z (hsize ▸ List.mem_append_right _ hz)
  length := by rw [← c.length, hsize, digits_zeros hzeros (by decide)]

theorem strtol_chunk {rest : Bytes} (h : strtol (c.size ++ crlf ++ rest) 16 < 2 ^ 31) :
    int32 (strtol (c.size ++ crlf ++ rest) 16) = c.data.length := by
  have hcr : (crlf ++ rest).headD 0 = 13 := rfl
  rw [List.append_assoc, strtol_hex c.nonempty c.hex (by rw [hcr]; decide) (by rw [hcr]; decide), c.length] at h ⊢
  rw [min_eq_right (by omega)] at h ⊢
  exact int32_eq (Int.natCast_nonneg _) h

namespace HttpResponseParser

variable {r : HttpResponseParser} {size rest : Bytes} {p : Nat}

theorem digits_scan (h : ∀ c ∈ size, isxdigit c = true) :
    through Client.table (· = .done) 2 size = some 2 ∧ calls Client.table (· = .done) p 2 size = [] := by
  induction size generalizing p with
  | nil => exact ⟨rfl, rfl⟩
  | cons c size ih =>
    obtain ⟨e, he, hnext⟩ := Option.map_eq_some_iff.mp (Client.next_xdigit c (h c List.mem_cons_self)).2
    obtain ⟨htarget, hactions⟩ := Prod.mk.inj hnext
    obtain ⟨hthrough, hcalls⟩ := ih (p := p + 1) fun c hc => h c (List.mem_cons_of_mem _ hc)
    simp [through, calls, he, htarget, hactions, hthrough, hcalls]

/-- The digits of a size leave nothing but the mark at the first of them. -/
theorem size_scan (hne : size ≠ []) (h : ∀ c ∈ size, isxdigit c = true) :
    through Client.table (· = .done) 1 size = some 2 ∧
      calls Client.table (· = .done) 0 1 size = [(0, .mark)] := by
  obtain ⟨c, size, rfl⟩ := List.exists_cons_of_ne_nil hne
  obtain ⟨e, he, hnext⟩ := Option.map_eq_some_iff.mp (Client.next_xdigit c (h c List.mem_cons_self)).1
  obtain ⟨htarget, hactions⟩ := Prod.mk.inj hnext
  obtain ⟨hthrough, hcalls⟩ := digits_scan (p := 1) fun c hc => h c (List.mem_cons_of_mem _ hc)
  simp [through, calls, he, htarget, hactions, hthrough, hcalls]

theorem line_scan (hne : size ≠ []) (h : ∀ c ∈ size, isxdigit c = true)
    (act : ClientAction → Nat → HttpResponseParser → HttpResponseParser) :
    exec Client.table (· = .done) act 0 1 r (size ++ crlf ++ rest) =
      ⟨120, runCalls act r [(0, .mark), (size.length, .chunkSize), (size.length + 1, .done)], size.length + 2⟩ := by
  obtain ⟨hthrough, hcalls⟩ := size_scan hne h
  have hline : size ++ crlf ++ rest = (size ++ [13]) ++ 10 :: rest := by simp [crlf]
  have hcr : through Client.table (· = .done) 1 (size ++ [13]) = some 3 := by
    rw [through_append, hthrough]
    decide
  have hcrcalls : calls Client.table (· = .done) 0 1 (size ++ [13]) = [(0, .mark), (size.length, .chunkSize)] := by
    have hedge : calls Client.table (· = .done) size.length 2 [13] = [(size.length, .chunkSize)] := rfl
    rw [calls_append hthrough, hcalls, Nat.zero_add, hedge]
    rfl
  have hlf : (next Client.table 3 10).map (fun e => (e.target, e.actions)) = some (120, [.done]) := by decide
  obtain ⟨e, he, hnext⟩ := Option.map_eq_some_iff.mp hlf
  obtain ⟨htarget, hactions⟩ := Prod.mk.inj hnext
  rw [hline, exec_append hcr, exec_store, hcrcalls]
  simp [exec, he, htarget, hactions, runCalls]

/-- What the line of a chunk header makes of a parser. -/
structure Header (r r' : HttpResponseParser) (size : Int) : Prop where
  cs : r'.parser.cs = 120
  contentLen : r'.parser.contentLen = size
  chunksDone : r'.parser.chunksDone = decide (size ≤ 0)
  error : r'.error = r.error

theorem execute_line (hne : size ≠ []) (h : ∀ c ∈ size, isxdigit c = true) :
    Header r (r.execute (size ++ crlf ++ rest) true).1 (int32 (strtol (size ++ crlf ++ rest) 16)) ∧
      (r.execute (size ++ crlf ++ rest) true).2 = size.length + 2 := by
  simp only [execute, if_true, run, HttpclientParser.init]
  rw [line_scan hne h]
  simp only [runCalls, List.foldl_cons, List.foldl_nil, act, List.drop_zero]
  refine ⟨?_, trivial⟩
  split_ifs with hlast <;> exact ⟨rfl, rfl, rfl, rfl⟩

/-- Digits without the end of their line are consumed. -/
theorem execute_digits (hne : size ≠ []) (h : ∀ c ∈ size, isxdigit c = true) :
    (r.execute size true).1.parser.cs = 2 ∧ (r.execute size true).1.error = r.error ∧
      (r.execute size true).2 = size.length := by
  obtain ⟨hthrough, hcalls⟩ := size_scan hne h
  obtain ⟨hcs, hnread⟩ := run_of_through (r := { r with parser := r.parser.init }) hthrough
  refine ⟨hcs, ?_, hnread⟩
  simp only [execute, if_true, run, HttpclientParser.init]
  rw [exec_store, hcalls]
  rfl

end HttpResponseParser
end Http
end MyHttp

import MyHttp.Http.Framing
import MyHttp.Lib.Pieces

/-! A response head that comes in several reads, against the same head in one piece: the parser clears its registers
    before each read, and what it makes of the head is the same as long as the reads keep what it looks at. -/

namespace MyHttp
namespace Http

open Lib.CString Lib.Machine Lib.Scan

/-- No edge leads to the error state, and the final states are reached with `done`. -/
theorem Client.table_targets : ∀ row ∈ Client.table, ∀ e ∈ row.2,
    e.target ≠ 0 ∧ (120 ≤ e.target ↔ e.actions.any (· = .done) = true) := by decide +kernel

theorem Client.next_target {cs : Nat} {c : UInt8} {e : Edge ClientAction} (h : next Client.table cs c = some e) :
    e.target ≠ 0 ∧ (120 ≤ e.target ↔ e.actions.any (· = .done) = true) := by
  obtain ⟨es, hrow, he, -⟩ := mem_of_next h
  exact Client.table_targets _ hrow _ he

/-- Before its end the scan is neither in error nor final. -/
theorem Client.through_state {cs cs' : Nat} {bytes : Bytes} (h : through Client.table (· = .done) cs bytes = some cs')
    (hcs : cs ≠ 0 ∧ cs < 120) : cs' ≠ 0 ∧ cs' < 120 := by
  refine through_keeps (P := fun cs => cs ≠ 0 ∧ cs < 120) (fun cs c e he hs => ?_) h hcs
  obtain ⟨hne, hfinal⟩ := Client.next_target he
  refine ⟨hne, Nat.lt_of_not_le fun hle => ?_⟩
  rw [hfinal.mp hle] at hs
  cases hs

namespace HttpResponseParser

variable {head data : Bytes} {b p : Nat} {m : Marks} {full cut r : HttpResponseParser} {a : ClientAction}

/-- The registers against the positions in the message, of which the buffer has the bytes from `b` on. -/
def Marked (b : Nat) (m : Marks) (r : HttpResponseParser) : Prop :=
  m.Cut b r.parser.mark r.parser.fieldStart r.parser.fieldLen

theorem Marked.act (h : Marked b m r) : Marked b (m.act ClientAction.reg a p) (r.act data a (p - b)) := by
  cases a with
  | mark => exact h.put_mark
  | startField => exact h.put_fieldStart
  | writeField => exact h.put_field
  | writeValue => simpa [Marked, HttpResponseParser.act, Marks.act, ClientAction.reg] using h
  | httpVersion => simpa [Marked, HttpResponseParser.act, Marks.act, ClientAction.reg] using h
  | chunkSize =>
    simp only [HttpResponseParser.act]
    split_ifs <;> exact h
  | _ => exact h

theorem error_onResponseVersion {at_ : Bytes} {n : Nat} (h : (r.onResponseVersion at_ n).error = 0) :
    r.error = 0 ∧ (strncmpEq at_ (ascii "HTTP/1.1") n = true ∨ strncmpEq at_ (ascii "HTTP/1.0") n = true) := by
  unfold onResponseVersion at h
  split_ifs at h with h₁ h₀
  · exact ⟨h, Or.inl h₁⟩
  · exact ⟨h, Or.inr h₀⟩

theorem error_onResponseHttpField {field value : Bytes} {flen vlen : Nat}
    (h : (r.onResponseHttpField field flen value vlen).error = 0) : r.error = 0 ∧ flen ≠ 0 := by
  unfold onResponseHttpField at h
  split_ifs at h with hlen
  exact ⟨h, hlen⟩

theorem onResponseVersion_eq {at_ : Bytes} {n : Nat}
    (h : strncmpEq at_ (ascii "HTTP/1.1") n = true ∨ strncmpEq at_ (ascii "HTTP/1.0") n = true) :
    ∃ version, r.onResponseVersion at_ n = { r with data := { r.data with version } } := by
  unfold onResponseVersion
  split_ifs with h₁ h₀
  · exact ⟨_, rfl⟩
  · exact ⟨_, rfl⟩
  · exact (h.elim h₁ h₀).elim

/-- An error is not forgotten. -/
theorem error_act (h : (r.act data a p).error = 0) : r.error = 0 := by
  cases a with
  | httpVersion => exact (error_onResponseVersion h).1
  | writeValue => exact (error_onResponseHttpField h).1
  | chunkSize =>
    simp only [HttpResponseParser.act, onResponseChunk] at h
    split_ifs at h <;> exact h
  | _ => exact h

theorem error_runCalls {l : List (Nat × ClientAction)} (h : (runCalls (fun a p r => r.act data a p) r l).error = 0) :
    r.error = 0 := by
  induction l generalizing r with
  | nil => exact h
  | cons x l ih => exact error_act (ih h)

/-- What the cut head has in common with the whole one. -/
structure Same (head : Bytes) (full cut : HttpResponseParser) : Prop where
  chunked : cut.parser.chunked = full.parser.chunked
  error : cut.error = 0
  length : (whole head).parser.chunked = true ∨
    cut.data.headers.get contentLength = full.data.headers.get contentLength
  body : cut.data.body = []

theorem Same.act (h : Same head full cut) (hfull : Marked 0 m full) (hcut : Marked b m cut)
    (hkept : Kept head data b m p a) (herror : (full.act head a p).error = 0)
    (htext : ∀ s, b ≤ s → (data.drop (s - b)).take (p - s) = (head.drop s).take (p - s)) :
    Same head (full.act head a p) (cut.act data a (p - b)) := by
  obtain ⟨hchunked, herr, hlength, hbody⟩ := h
  cases a with
  | httpVersion =>
    have hmatch := (error_onResponseVersion herror).2
    have hver : strncmpEq (data.drop cut.parser.mark) (ascii "HTTP/1.1") (p - b - cut.parser.mark) = true ∨
        strncmpEq (data.drop cut.parser.mark) (ascii "HTTP/1.0") (p - b - cut.parser.mark) = true := by
      rcases hkept with hb | rfl
      · have hlen : p - b - (m.mark - b) = p - m.mark := by omega
        rw [hfull.mark, Nat.sub_zero, ← strncmpEq_take, ← strncmpEq_take (t := ascii "HTTP/1.0"), ← htext _ hb] at hmatch
        rw [hcut.mark, hlen, ← strncmpEq_take, ← strncmpEq_take (t := ascii "HTTP/1.0")]
        exact hmatch
      · left
        rw [Nat.sub_self, Nat.zero_sub]
        rfl
    obtain ⟨_, hfull'⟩ := onResponseVersion_eq (r := full) hmatch
    obtain ⟨_, hcut'⟩ := onResponseVersion_eq (r := cut) hver
    simp only [HttpResponseParser.act, hfull', hcut']
    exact ⟨hchunked, herr, hlength, hbody⟩
  | writeValue =>
    obtain ⟨hcolon, hmark, hname⟩ := hkept
    have hfull₀ : full.parser.fieldLen ≠ 0 := (error_onResponseHttpField herror).2
    have hcut₀ : cut.parser.fieldLen ≠ 0 := by
      have hlen := hfull.fieldLen
      rw [hcut.fieldLen]
      omega
    have hvalue : (data.drop cut.parser.mark).take (p - b - cut.parser.mark) =
        (head.drop full.parser.mark).take (p - full.parser.mark) := by
      have hlen : p - b - (m.mark - b) = p - m.mark := by omega
      rw [hcut.mark, hfull.mark, Nat.sub_zero, hlen]
      exact htext _ hmark
    simp only [HttpResponseParser.act, onResponseHttpField, hfull₀, hcut₀, if_false]
    refine ⟨hchunked, herr, ?_, hbody⟩
    rcases hname with hchunks | hname
    · exact Or.inl hchunks
    · rcases hlength with hchunks | hlength
      · exact Or.inl hchunks
      · right
        rw [Headers.get_set, Headers.get_set, hvalue, hlength, hcut.fieldStart, hcut.fieldLen, hname, hfull.fieldStart,
          hfull.fieldLen, Nat.sub_zero, Nat.max_zero]
  | chunkSize =>
    simp only [HttpResponseParser.act, onResponseChunk]
    split_ifs <;> exact ⟨rfl, herr, hlength, hbody⟩
  | transChunked => exact ⟨rfl, herr, hlength, hbody⟩
  | _ => exact ⟨hchunked, herr, hlength, hbody⟩

/-- The whole head and the cut one, up to the same byte. -/
structure Follows (head : Bytes) (b : Nat) (m : Marks) (full cut : HttpResponseParser) : Prop where
  fullMarks : Marked 0 m full
  cutMarks : Marked b m cut
  same : full.error = 0 → Same head full cut

/-- One piece of a head. -/
theorem Follows.piece {done x y z : Bytes} {cs : Nat} (h : Follows head done.length m full cut)
    (hhead : head = done ++ x ++ z) (hdata : data = x ++ y)
    (hkept : ∀ q ∈ seen ClientAction.reg m (calls Client.table (· = .done) done.length cs x),
      Kept head data done.length q.1 q.2.1 q.2.2) :
    Follows head done.length
      (runCalls (Marks.act ClientAction.reg) m (calls Client.table (· = .done) done.length cs x))
      (runCalls (fun a p r => r.act head a p) full (calls Client.table (· = .done) done.length cs x))
      (runCalls (fun a p r => r.act data a (p - done.length)) cut (calls Client.table (· = .done) done.length cs x)) := by
  refine runCalls_sim (R := Follows head done.length) (fun m p a full cut hq h => ?_) h
  have hpos := calls_pos (mem_of_seen hq)
  refine ⟨h.fullMarks.act, h.cutMarks.act, fun herror => ?_⟩
  refine (h.same (error_act herror)).act h.fullMarks h.cutMarks (hkept _ hq) herror fun s hs => ?_
  rw [hhead, hdata]
  exact text_piece (Nat.le_of_lt hpos.2) hs

/-! ### The end of a head -/

/-- The registers as each call finds them. -/
def cleared (r : HttpResponseParser) : HttpResponseParser :=
  { r with parser := { r.parser with nread := 0, mark := 0, fieldLen := 0, fieldStart := 0 } }

theorem run_cs : (r.run data).parser.cs = (exec Client.table (· = .done) (fun a p r => r.act data a p) 0 r.parser.cs
    r.cleared data).cs := rfl

theorem run_nread : (r.run data).parser.nread = (exec Client.table (· = .done) (fun a p r => r.act data a p) 0
    r.parser.cs r.cleared data).pos := rfl

/-- The last byte of a head is the first that ends the scan. -/
theorem IsHead.accepts (h : IsHead head) : Accepts Client.table (· = .done) 1 head (whole head).parser.cs := by
  have hne : head ≠ [] := by
    rintro rfl
    cases h.response
  refine accepts_of_exec hne ?_ fun cs' c e he htarget => ?_
  · rw [Nat.zero_add]
    exact h.nread
  · refine (Client.next_target he).2.mp ?_
    rw [htarget]
    exact h.final

/-! ### A head read by read -/

/-- The positions behind some bytes of a head, and the parser that has the head in one piece. -/
def marksAt (done : Bytes) : Marks := runCalls (Marks.act ClientAction.reg) .zero (RecvResponse.headCalls done)

def fullAt (head done : Bytes) : HttpResponseParser :=
  runCalls (fun a p r => r.act head a p) new (RecvResponse.headCalls done)

/-- The parser when some bytes of a head are behind it, and more are to come. -/
structure Begun (head done : Bytes) (r : HttpResponseParser) : Prop where
  cs : through Client.table (· = .done) 1 done = some r.parser.cs
  full : Marked 0 (marksAt done) (fullAt head done)
  same : Same head (fullAt head done) r
  bodyStart : r.parser.bodyStart = 0

theorem begun_nil (head : Bytes) : Begun head [] new :=
  ⟨rfl, (Marks.below_zero 0).cut, ⟨rfl, rfl, Or.inr rfl, rfl⟩, rfl⟩

variable {done x y z : Bytes}

theorem marksAt_below : (marksAt done).Below done.length := by
  refine (Marks.below_zero _).runCalls fun q hq => ?_
  have hpos := calls_pos hq
  omega

theorem Begun.follows (h : Begun head done r) : Follows head done.length (marksAt done) (fullAt head done) r.cleared := by
  refine ⟨h.full, marksAt_below.cut, fun _ => ?_⟩
  obtain ⟨hchunked, herror, hlength, hbody⟩ := h.same
  exact ⟨hchunked, herror, hlength, hbody⟩

theorem headCalls_append {cs : Nat} (h : through Client.table (· = .done) 1 done = some cs) :
    RecvResponse.headCalls (done ++ x) =
      RecvResponse.headCalls done ++ calls Client.table (· = .done) done.length cs x := by
  rw [RecvResponse.headCalls, calls_append h, Nat.zero_add]
  rfl

theorem IsHead.fullAt_error (h : IsHead head) : (fullAt head head).error = 0 := by
  have herror := h.error
  rw [whole, run, exec_store] at herror
  exact herror

/-- A read inside a head. `x` is what it gets of the head. -/
theorem Begun.piece (h : Begun head done r) (hhead : head = done ++ x ++ z) (hdata : data = x ++ y)
    (hcalls : calls Client.table (· = .done) done.length r.parser.cs data =
      calls Client.table (· = .done) done.length r.parser.cs x)
    (hkept : ∀ q ∈ seen ClientAction.reg (marksAt done) (calls Client.table (· = .done) done.length r.parser.cs data),
      Kept head data done.length q.1 q.2.1 q.2.2)
    (herror : (fullAt head (done ++ x)).error = 0) :
    Marked 0 (marksAt (done ++ x)) (fullAt head (done ++ x)) ∧ Same head (fullAt head (done ++ x)) (r.run data) := by
  rw [hcalls] at hkept
  have hfollows := h.follows.piece hhead hdata hkept
  have hmarks : marksAt (done ++ x) = _ := congrArg (runCalls (Marks.act ClientAction.reg) .zero) (headCalls_append h.cs)
  have hfull : fullAt head (done ++ x) = _ :=
    congrArg (runCalls (fun a p (r : HttpResponseParser) => r.act head a p) new) (headCalls_append h.cs)
  rw [runCalls_append] at hmarks hfull
  have hsame := hfollows.same
  rw [hmarks, hfull]
  rw [hfull] at herror
  refine ⟨hfollows.fullMarks, ?_⟩
  rw [run, exec_store_piece (b := done.length), hcalls]
  obtain ⟨hchunked, herr, hlength, hbody⟩ := hsame herror
  exact ⟨hchunked, herr, hlength, hbody⟩

theorem bodyStart_act (ha : a ≠ .done) : (r.act data a p).parser.bodyStart = r.parser.bodyStart := by
  cases a with
  | done => exact absurd rfl ha
  | writeValue => exact congrArg _ parser_onResponseHttpField
  | httpVersion => exact congrArg _ parser_onResponseVersion
  | chunkSize =>
    simp only [HttpResponseParser.act]
    split_ifs <;> rfl
  | _ => rfl

theorem run_of_through {cs : Nat} (h : through Client.table (· = .done) r.parser.cs data = some cs) :
    (r.run data).parser.cs = cs ∧ (r.run data).parser.nread = data.length := by
  rw [run_cs, run_nread, ← Nat.zero_add data.length]
  exact exec_of_through h

theorem run_bodyStart {cs : Nat} (h : through Client.table (· = .done) r.parser.cs data = some cs) :
    (r.run data).parser.bodyStart = r.parser.bodyStart := by
  rw [run, exec_store]
  refine runCalls_keeps (P := fun r' : HttpResponseParser => r'.parser.bodyStart = r.parser.bodyStart)
    (fun q hq r' hr => ?_) rfl
  rw [bodyStart_act, hr]
  exact of_decide_eq_false (not_stops_of_through h hq)

/-- A read that ends inside a head. -/
theorem Begun.more (h : Begun head done r) (hhead : IsHead head) (heq : head = done ++ data ++ z) (hz : z ≠ [])
    (hkept : ∀ q ∈ seen ClientAction.reg (marksAt done) (calls Client.table (· = .done) done.length r.parser.cs data),
      Kept head data done.length q.1 q.2.1 q.2.2) :
    Begun head (done ++ data) (r.run data) ∧ (r.run data).parser.nread = data.length ∧
      (r.run data).parser.cs ≠ 0 ∧ (r.run data).parser.cs < 120 := by
  obtain ⟨cs₁, hcs₁⟩ := (heq ▸ hhead.accepts : Accepts _ _ 1 (done ++ data ++ z) _).through hz
  have hstate := Client.through_state hcs₁ ⟨by decide, by decide⟩
  have hdata : through Client.table (· = .done) r.parser.cs data = some cs₁ := by
    rw [through_append, h.cs] at hcs₁
    exact hcs₁
  have herror : (fullAt head (done ++ data)).error = 0 := by
    have hfull := hhead.fullAt_error
    rw [fullAt, heq, headCalls_append hcs₁, runCalls_append, ← heq] at hfull
    exact error_runCalls hfull
  obtain ⟨hfull, hsame⟩ := h.piece heq (List.append_nil data).symm rfl hkept herror
  obtain ⟨hend, hnread⟩ := run_of_through hdata
  refine ⟨⟨?_, hfull, hsame, ?_⟩, hnread, ?_⟩
  · rw [hcs₁, hend]
  · rw [run_bodyStart hdata, h.bodyStart]
  · rw [hend]
    exact hstate

/-- The read with the end of a head. -/
theorem Begun.final (h : Begun head done r) (hhead : IsHead head) (heq : head = done ++ x) (hx : x ≠ []) (hdata : data = x ++ y)
    (hkept : ∀ q ∈ seen ClientAction.reg (marksAt done) (calls Client.table (· = .done) done.length r.parser.cs data),
      Kept head data done.length q.1 q.2.1 q.2.2) :
    Same head (whole head) (r.run data) ∧ (r.run data).parser.cs = (whole head).parser.cs ∧
      (r.run data).parser.nread = x.length := by
  have haccepts : Accepts Client.table (· = .done) r.parser.cs x (whole head).parser.cs :=
    (heq ▸ hhead.accepts : Accepts _ _ 1 (done ++ x) _).rest hx h.cs
  have hcalls : calls Client.table (· = .done) done.length r.parser.cs data =
      calls Client.table (· = .done) done.length r.parser.cs x := by
    rw [hdata]
    exact haccepts.calls_append
  have herror : (fullAt head (done ++ x)).error = 0 := heq ▸ hhead.fullAt_error
  obtain ⟨-, hsame⟩ := h.piece (z := []) (by rw [heq, List.append_nil]) hdata hcalls hkept herror
  refine ⟨?_, ?_, ?_⟩
  · rw [← heq] at hsame
    obtain ⟨hchunked, herr, hlength, hbody⟩ := hsame
    rw [whole, run, exec_store]
    exact ⟨hchunked, herr, hlength, hbody⟩
  · rw [hdata]
    exact haccepts.exec_append.1
  · rw [hdata, ← Nat.zero_add x.length]
    exact haccepts.exec_append.2

end HttpResponseParser
end Http
end MyHttp

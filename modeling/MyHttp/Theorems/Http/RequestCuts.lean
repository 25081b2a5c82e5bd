import MyHttp.Http.Requests
import MyHttp.Lib.Pieces

/-! A request head that comes in several reads, against the same head in one piece: the parser clears its registers before
    each read but for the start of the query, and what it makes of the head is the same as long as the reads keep its
    tokens. -/

namespace MyHttp
namespace Http

open Lib.CString Lib.Machine Lib.Scan

/-! ### Where the tokens stand in the machine -/

namespace Http11

variable {relaxed : Bool} {p cs cs' : Nat} {m : Marks} {c : UInt8} {e : Edge RequestAction} {bytes : Bytes}

/-- The states 15 and 16, in which a value is read, are entered with a field name. -/
theorem table_names : ∀ relaxed, ∀ row ∈ table relaxed, ∀ e ∈ row.2, e.target = 15 ∨ e.target = 16 →
    e.actions = [.writeField] ∨ ((row.1 = 15 ∨ row.1 = 16) ∧ (e.actions = [.mark] ∨ e.actions = [])) := by
  decide +kernel

theorem table_values : ∀ relaxed, ∀ row ∈ table relaxed, ∀ e ∈ row.2, e.actions.contains .writeValue = true →
    (row.1 = 15 ∨ row.1 = 16) ∧ (e.actions = [.mark, .writeValue] ∨ e.actions = [.writeValue]) := by decide +kernel

/-- A method ends with a blank. -/
theorem table_methods : ∀ relaxed, ∀ row ∈ table relaxed, ∀ e ∈ row.2, e.actions.contains .requestMethod = true →
    e.on = [(32, 32)] := by decide +kernel

/-- What the remembered positions are at position `p`, in a state. -/
structure At (p cs : Nat) (m : Marks) : Prop where
  below : m.Below p
  query : m.query < p ∨ m.query = 0
  field : cs = 15 ∨ cs = 16 → m.fieldStart = m.nameStart

theorem query_runCalls {l : List RequestAction} (h : m.query < p + 1 ∨ m.query = 0) :
    (runCalls (Marks.act RequestAction.reg) m (l.map (p, ·))).query < p + 1 ∨
      (runCalls (Marks.act RequestAction.reg) m (l.map (p, ·))).query = 0 := by
  refine runCalls_keeps (P := fun m : Marks => m.query < p + 1 ∨ m.query = 0) (fun x hx m hm => ?_) h
  obtain ⟨a, -, rfl⟩ := List.mem_map.mp hx
  cases a with
  | startQuery => exact Or.inl (Nat.lt_succ_self p)
  | _ => exact hm

theorem At.edge (h : next (table relaxed) cs c = some e) (hat : At p cs m) :
    At (p + 1) e.target (runCalls (Marks.act RequestAction.reg) m (e.actions.map (p, ·))) := by
  obtain ⟨es, hrow, he, -⟩ := mem_of_next h
  refine ⟨?_, ?_, fun hvalue => ?_⟩
  · refine (hat.below.mono (Nat.le_succ p)).runCalls fun x hx => ?_
    obtain ⟨a, -, rfl⟩ := List.mem_map.mp hx
    exact Nat.le_succ p
  · refine query_runCalls ?_
    rcases hat.query with hlt | hzero
    · exact Or.inl (Nat.lt_succ_of_lt hlt)
    · exact Or.inr hzero
  · rcases table_names relaxed _ hrow _ he hvalue with hname | ⟨hcs, hmark | hnone⟩
    · rw [hname]
      rfl
    · rw [hmark]
      exact hat.field hcs
    · rw [hnone]
      exact hat.field hcs

/-- What is known at a token. -/
structure Token (bytes : Bytes) (p : Nat) (x : Marks × Nat × RequestAction) : Prop where
  below : x.1.Below x.2.1
  name : x.2.2 = .writeValue → x.1.fieldStart = x.1.nameStart
  blank : x.2.2 = .requestMethod → bytes[x.2.1 - p]? = some 32

theorem below_seen {l : List RequestAction} (h : m.Below p) {x : Marks × Nat × RequestAction}
    (hx : x ∈ seen RequestAction.reg m (l.map (p, ·))) : x.1.Below p := by
  induction l generalizing m with
  | nil => cases hx
  | cons a l ih =>
    rcases List.mem_cons.mp hx with rfl | hx
    · exact h
    · exact ih (h.act (Nat.le_refl p)) hx

theorem At.token (h : At p cs m) {x : Marks × Nat × RequestAction}
    (hx : x ∈ seen RequestAction.reg m (calls (table relaxed) (· = .done) p cs bytes)) : Token bytes p x := by
  obtain ⟨cs', m', c, e, he, hat, hc, hseen⟩ := mem_seen_calls (P := At) (fun _ _ _ _ _ he h => h.edge he) h hx
  obtain ⟨es, hrow, hmem, hhas⟩ := mem_of_next he
  obtain ⟨m₁, q, a⟩ := x
  obtain ⟨a', ha, hxa⟩ := List.mem_map.mp (mem_of_seen hseen)
  obtain rfl : a' = a := congrArg Prod.snd hxa
  have hmem' : ∀ b, a' = b → e.actions.contains b = true := fun b hb => List.contains_iff_mem.mpr (hb ▸ ha)
  refine ⟨below_seen hat.below hseen, fun heq => ?_, fun heq => ?_⟩
  · obtain ⟨hcs, hactions | hactions⟩ := table_values relaxed _ hrow _ hmem (hmem' _ heq)
    · rw [hactions] at hseen
      rcases List.mem_cons.mp hseen with hfirst | hseen
      · obtain ⟨-, -, rfl⟩ := hfirst
        cases heq
      · have hmarks : m₁ = _ := congrArg Prod.fst (List.mem_singleton.mp hseen)
        rw [hmarks]
        exact hat.field hcs
    · rw [hactions] at hseen
      have hmarks : m₁ = _ := congrArg Prod.fst (List.mem_singleton.mp hseen)
      rw [hmarks]
      exact hat.field hcs
  · rw [table_methods relaxed _ hrow _ hmem (hmem' _ heq)] at hhas
    have hbyte : c.toNat = (32 : UInt8).toNat := by
      simp only [CharClass.has, List.any_cons, List.any_nil, Bool.or_false, Bool.and_eq_true, decide_eq_true_eq] at hhas
      exact Nat.le_antisymm hhas.2 hhas.1
    rw [hc, UInt8.toNat_inj.mp hbyte]

end Http11
/-! ### One action on the whole head and on a part of it -/

namespace HttpRequestParser

variable {relaxed : Bool} {head data : Bytes} {b p : Nat} {m : Marks} {full cut r : HttpRequestParser}
  {a : RequestAction}

/-- No callback has failed. -/
def Fine (r : HttpRequestParser) : Prop := r.error = 0 ∧ r.thrown = false

theorem fine_onRequestMethod {at_ : Bytes} (h : (r.onRequestMethod at_).Fine) :
    r.Fine ∧ ∃ method, charsToHttpMethod at_ = some method := by
  unfold onRequestMethod at h
  split at h
  · rename_i method hmethod
    exact ⟨h, method, hmethod⟩
  · cases h.1

theorem fine_onRequestVersion {at_ : Bytes} {n : Nat} (h : (r.onRequestVersion at_ n).Fine) :
    r.Fine ∧ ∃ version, chars2Version at_ n = some version := by
  unfold onRequestVersion at h
  split at h
  · rename_i version hversion
    exact ⟨h, version, hversion⟩
  · cases h.1

theorem fine_onRequestQuery {at_ : Bytes} {n : Int} (h : (r.onRequestQuery at_ n).Fine) : r.Fine ∧ 0 ≤ n := by
  unfold onRequestQuery at h
  split at h
  · cases h.2
  · rename_i hn
    exact ⟨h, Int.not_lt.mp hn⟩

theorem fine_onRequestHttpField {field value : Bytes} {flen vlen : Nat}
    (h : (r.onRequestHttpField field flen value vlen).Fine) : r.Fine ∧ flen ≠ 0 := by
  unfold onRequestHttpField at h
  split at h
  · cases h.1
  · rename_i hlen
    exact ⟨h, hlen⟩

/-- A failure is not forgotten. -/
theorem fine_act (h : (r.act data a p).Fine) : r.Fine := by
  cases a with
  | requestMethod => exact (fine_onRequestMethod h).1
  | httpVersion => exact (fine_onRequestVersion h).1
  | queryString => exact (fine_onRequestQuery h).1
  | writeValue => exact (fine_onRequestHttpField h).1
  | done =>
    simp only [HttpRequestParser.act] at h
    split at h <;> exact h
  | _ => exact h

theorem fine_runCalls {l : List (Nat × RequestAction)} (h : (runCalls (fun a p r => r.act data a p) r l).Fine) :
    r.Fine := by
  induction l generalizing r with
  | nil => exact h
  | cons x l ih => exact fine_act (ih h)

/-- The registers against the positions in the message, of which the buffer has the bytes from `b` on. The start of the
    query is right only when it is in the buffer. -/
structure Marked (b : Nat) (m : Marks) (r : HttpRequestParser) : Prop where
  cut : m.Cut b r.parser.mark r.parser.fieldStart r.parser.fieldLen
  query : b ≤ m.query → r.parser.queryStart = m.query - b

theorem Marked.congr {r' : HttpRequestParser} (h : Marked b m r) (heq : r'.parser = r.parser) : Marked b m r' :=
  ⟨heq ▸ h.cut, heq ▸ h.query⟩

theorem Marked.act (h : Marked b m r) : Marked b (m.act RequestAction.reg a p) (r.act data a (p - b)) := by
  cases a with
  | mark => exact ⟨h.cut.put_mark, h.query⟩
  | startField => exact ⟨h.cut.put_fieldStart, h.query⟩
  | writeField => exact ⟨h.cut.put_field, h.query⟩
  | startQuery => exact ⟨h.cut.put_query, fun _ => rfl⟩
  | done =>
    simp only [HttpRequestParser.act]
    split <;> exact ⟨h.cut, h.query⟩
  | requestMethod => exact h.congr parser_onRequestMethod
  | httpVersion => exact h.congr parser_onRequestVersion
  | queryString => exact h.congr parser_onRequestQuery
  | writeValue => exact h.congr parser_onRequestHttpField
  | _ => exact ⟨h.cut, h.query⟩

/-- The cut head has made the same request as the whole one. -/
structure Same (full cut : HttpRequestParser) : Prop where
  data : cut.data = full.data
  fine : cut.Fine

theorem Same.act (h : Same full cut) (hfull : Marked 0 m full) (hcut : Marked b m cut) (hkept : KeptToken head data b m p a)
    (hfine : (full.act head a p).Fine) (hbelow : m.Below p) (hb : b ≤ p)
    (hname : a = .writeValue → m.fieldStart = m.nameStart)
    (htext : ∀ s, b ≤ s → (data.drop (s - b)).take (p - s) = (head.drop s).take (p - s)) :
    Same (full.act head a p) (cut.act data a (p - b)) := by
  obtain ⟨hdata, herror, hthrown⟩ := h
  have htoken : b ≤ m.mark → (data.drop cut.parser.mark).take (p - b - cut.parser.mark) =
      (head.drop full.parser.mark).take (p - full.parser.mark) := by
    intro hmark
    have hlen : p - b - (m.mark - b) = p - m.mark := by omega
    rw [hcut.cut.mark, hfull.cut.mark, Nat.sub_zero, hlen]
    exact htext _ hmark
  cases a with
  | requestMethod =>
    obtain ⟨-, method, hmethod⟩ := fine_onRequestMethod hfine
    have hsame : charsToHttpMethod (data.drop cut.parser.mark) = some method := by
      rw [hcut.cut.mark, ← hmethod, hfull.cut.mark]
      exact hkept
    simp only [HttpRequestParser.act, onRequestMethod, hmethod, hsame, hdata]
    exact ⟨rfl, herror, hthrown⟩
  | httpVersion =>
    obtain ⟨-, version, hversion⟩ := fine_onRequestVersion hfine
    have hlen : p - b - (m.mark - b) = p - max m.mark b := by omega
    have hsame : chars2Version (data.drop cut.parser.mark) (p - b - cut.parser.mark) = some version := by
      rw [hcut.cut.mark, hlen, ← hversion, hfull.cut.mark]
      exact hkept
    simp only [HttpRequestParser.act, onRequestVersion, hversion, hsame, hdata]
    exact ⟨rfl, herror, hthrown⟩
  | requestPath =>
    simp only [HttpRequestParser.act, onRequestPath, hdata, htoken hkept]
    exact ⟨rfl, herror, hthrown⟩
  | fragment =>
    simp only [HttpRequestParser.act, onRequestFragment, hdata, htoken hkept]
    exact ⟨rfl, herror, hthrown⟩
  | queryString =>
    have hquery : b ≤ m.query := hkept
    have hle := hbelow.query
    have hfull' : full.parser.queryStart = m.query := hfull.query (Nat.zero_le _)
    have hcut' : cut.parser.queryStart = m.query - b := hcut.query hquery
    have hlen : ((p - b : Nat) : Int) - ((m.query - b : Nat) : Int) = (p : Int) - (m.query : Int) := by omega
    have hpos : ¬ (p : Int) - (m.query : Int) < 0 := by omega
    have hnat : ((p : Int) - (m.query : Int)).toNat = p - m.query := by omega
    simp only [HttpRequestParser.act, onRequestQuery, hfull', hcut', hlen, if_neg hpos, hnat, htext _ hquery, hdata]
    exact ⟨rfl, herror, hthrown⟩
  | writeValue =>
    obtain ⟨hstart, hmark⟩ := hkept
    obtain ⟨-, hlen⟩ := fine_onRequestHttpField hfine
    have hfullLen : full.parser.fieldLen = m.colon - m.nameStart := by
      rw [hfull.cut.fieldLen, Nat.max_eq_left (Nat.zero_le _)]
    have hcutLen : cut.parser.fieldLen = m.colon - m.nameStart := by
      rw [hcut.cut.fieldLen, Nat.max_eq_left hstart]
    have hfield : (data.drop cut.parser.fieldStart).take cut.parser.fieldLen =
        (head.drop full.parser.fieldStart).take full.parser.fieldLen := by
      have hle : m.colon - m.nameStart ≤ p - m.nameStart := Nat.sub_le_sub_right hbelow.colon _
      have htake := congrArg (List.take (m.colon - m.nameStart)) (htext m.nameStart hstart)
      rw [List.take_take, List.take_take, Nat.min_eq_left hle] at htake
      rw [hcutLen, hfullLen, hcut.cut.fieldStart, hfull.cut.fieldStart, hname rfl, Nat.sub_zero]
      exact htake
    have hlen' : cut.parser.fieldLen ≠ 0 := by
      rw [hcutLen, ← hfullLen]
      exact hlen
    simp only [HttpRequestParser.act, onRequestHttpField, hlen, hlen', if_false, hfield, htoken hmark, hdata]
    exact ⟨rfl, herror, hthrown⟩
  | done =>
    simp only [HttpRequestParser.act]
    split <;> split <;> exact ⟨hdata, herror, hthrown⟩
  | _ => exact ⟨hdata, herror, hthrown⟩

/-! ### A head read by read -/

open RecvRequest (headCalls)

/-- The positions behind some bytes of a head, and the parser that has the head in one piece. -/
def marksAt (relaxed : Bool) (done : Bytes) : Marks := runCalls (Marks.act RequestAction.reg) .zero (headCalls relaxed done)

def fullAt (relaxed : Bool) (head done : Bytes) : HttpRequestParser :=
  runCalls (fun a p r => r.act head a p) (new relaxed) (headCalls relaxed done)

/-- The parser when some bytes of a head are behind it, and more are to come. -/
structure Begun (relaxed : Bool) (head done : Bytes) (r : HttpRequestParser) : Prop where
  uriRelaxed : r.parser.uriRelaxed = relaxed
  cs : through (Http11.table relaxed) (· = .done) 1 done = some r.parser.cs
  full : Marked 0 (marksAt relaxed done) (fullAt relaxed head done)
  same : Same (fullAt relaxed head done) r
  query : done = [] → r.parser.queryStart = 0

theorem begun_nil (relaxed : Bool) (head : Bytes) : Begun relaxed head [] (new relaxed) :=
  ⟨rfl, rfl, ⟨(Marks.below_zero 0).cut, fun _ => rfl⟩, ⟨rfl, rfl, rfl⟩, fun _ => rfl⟩

variable {done x y z : Bytes}

theorem marksAt_at (h : Begun relaxed head done r) : Http11.At done.length r.parser.cs (marksAt relaxed done) := by
  have hstart : Http11.At 0 1 .zero := ⟨Marks.below_zero 0, Or.inr rfl, fun _ => rfl⟩
  have hat := through_marks (P := Http11.At) (fun _ _ _ _ _ he h => h.edge he) hstart h.cs
  rwa [Nat.zero_add] at hat

theorem Begun.cleared (h : Begun relaxed head done r) : Marked done.length (marksAt relaxed done) r.cleared := by
  have hat := marksAt_at h
  refine ⟨hat.below.cut, fun hle => ?_⟩
  rcases hat.query with hlt | hzero
  · exact absurd hle (Nat.not_le_of_lt hlt)
  · have hnil : done = [] := List.length_eq_zero_iff.mp (Nat.le_zero.mp (hzero ▸ hle))
    rw [hzero, Nat.zero_sub]
    exact h.query hnil

theorem headCalls_append {cs : Nat} (h : through (Http11.table relaxed) (· = .done) 1 done = some cs) :
    headCalls relaxed (done ++ x) =
      headCalls relaxed done ++ calls (Http11.table relaxed) (· = .done) done.length cs x := by
  rw [headCalls, calls_append h, Nat.zero_add]
  rfl

theorem IsRequest.accepts (h : IsRequest relaxed head) : Accepts (Http11.table relaxed) (· = .done) 1 head 348 := by
  have hne : head ≠ [] := by
    rintro rfl
    have hcs : (whole relaxed []).parser.cs = 1 := rfl
    rw [h.final] at hcs
    cases hcs
  rw [← h.final]
  refine accepts_of_exec hne ?_ fun cs' c e he htarget => ?_
  · rw [Nat.zero_add]
    exact h.nread
  · refine (Http11.next_target he).2.mp ?_
    rw [htarget]
    exact Nat.le_of_eq h.final.symm

theorem IsRequest.fullAt_fine (h : IsRequest relaxed head) : (fullAt relaxed head head).Fine := by
  obtain ⟨herror, hthrown, -, -⟩ := h
  rw [whole, run, exec_store] at herror hthrown
  exact ⟨herror, hthrown⟩

/-- The whole head and the cut one, up to the same byte. -/
structure Follows (head : Bytes) (b : Nat) (m : Marks) (full cut : HttpRequestParser) : Prop where
  fullMarks : Marked 0 m full
  cutMarks : Marked b m cut
  same : full.Fine → Same full cut

/-- One piece of a head. -/
theorem Follows.piece {cs : Nat} (h : Follows head done.length m full cut) (hat : Http11.At done.length cs m)
    (hhead : head = done ++ x ++ z) (hdata : data = x ++ y)
    (hkept : ∀ q ∈ seen RequestAction.reg m (calls (Http11.table relaxed) (· = .done) done.length cs x),
      KeptToken head data done.length q.1 q.2.1 q.2.2) :
    Follows head done.length
      (runCalls (Marks.act RequestAction.reg) m (calls (Http11.table relaxed) (· = .done) done.length cs x))
      (runCalls (fun a p r => r.act head a p) full (calls (Http11.table relaxed) (· = .done) done.length cs x))
      (runCalls (fun a p r => r.act data a (p - done.length)) cut
        (calls (Http11.table relaxed) (· = .done) done.length cs x)) := by
  refine runCalls_sim (R := Follows head done.length) (fun m p a full cut hq h => ?_) h
  obtain ⟨hbelow, hname, -⟩ := hat.token hq
  have hpos := calls_pos (mem_of_seen hq)
  refine ⟨h.fullMarks.act, h.cutMarks.act, fun hfine => ?_⟩
  refine (h.same (fine_act hfine)).act h.fullMarks h.cutMarks (hkept _ hq) hfine hbelow hpos.1 hname fun s hs => ?_
  rw [hhead, hdata]
  exact text_piece (Nat.le_of_lt hpos.2) hs

/-- A read inside a head, or with its end. `x` is what it gets of the head. -/
theorem Begun.piece (h : Begun relaxed head done r) (hhead : head = done ++ x ++ z) (hdata : data = x ++ y)
    (hcalls : calls (Http11.table relaxed) (· = .done) done.length r.parser.cs data =
      calls (Http11.table relaxed) (· = .done) done.length r.parser.cs x)
    (hkept : ∀ q ∈ seen RequestAction.reg (marksAt relaxed done)
        (calls (Http11.table relaxed) (· = .done) done.length r.parser.cs data),
      KeptToken head data done.length q.1 q.2.1 q.2.2)
    (hfine : (fullAt relaxed head (done ++ x)).Fine) :
    Marked 0 (marksAt relaxed (done ++ x)) (fullAt relaxed head (done ++ x)) ∧
      Same (fullAt relaxed head (done ++ x)) (r.run data) := by
  rw [hcalls] at hkept
  have hstart : Follows head done.length (marksAt relaxed done) (fullAt relaxed head done) r.cleared :=
    ⟨h.full, h.cleared, fun _ => ⟨h.same.data, h.same.fine⟩⟩
  have hfollows := hstart.piece (marksAt_at h) hhead hdata hkept
  have hmarks : marksAt relaxed (done ++ x) = _ :=
    congrArg (runCalls (Marks.act RequestAction.reg) .zero) (headCalls_append h.cs)
  have hfull : fullAt relaxed head (done ++ x) = _ :=
    congrArg (runCalls (fun a p (r : HttpRequestParser) => r.act head a p) (new relaxed)) (headCalls_append h.cs)
  rw [runCalls_append] at hmarks hfull
  rw [hmarks, hfull]
  rw [hfull] at hfine
  refine ⟨hfollows.fullMarks, ?_⟩
  have hsame := hfollows.same hfine
  rw [run, exec_store_piece (b := done.length), h.uriRelaxed, hcalls]
  exact ⟨hsame.data, hsame.fine⟩

/-- A read that ends inside a head. -/
theorem Begun.more (h : Begun relaxed head done r) (hhead : IsRequest relaxed head) (heq : head = done ++ data ++ z)
    (hz : z ≠ []) (hdata : data ≠ [])
    (hkept : ∀ q ∈ seen RequestAction.reg (marksAt relaxed done)
        (calls (Http11.table relaxed) (· = .done) done.length r.parser.cs data),
      KeptToken head data done.length q.1 q.2.1 q.2.2) :
    Begun relaxed head (done ++ data) (r.run data) ∧ (r.run data).parser.nread = data.length ∧
      (r.run data).parser.cs ≠ 0 ∧ (r.run data).parser.cs < 348 := by
  obtain ⟨cs, hcs⟩ := (heq ▸ hhead.accepts : Accepts _ _ 1 (done ++ data ++ z) 348).through hz
  have hstate := Http11.through_state hcs ⟨by decide, by decide⟩
  have hfine : (fullAt relaxed head (done ++ data)).Fine := by
    have hfull := hhead.fullAt_fine
    rw [fullAt, heq, headCalls, calls_append hcs, runCalls_append, ← heq] at hfull
    exact fine_runCalls hfull
  have hthrough : through (Http11.table r.parser.uriRelaxed) (· = .done) r.parser.cs data = some cs := by
    rw [through_append, h.cs] at hcs
    rw [h.uriRelaxed]
    exact hcs
  obtain ⟨hfull, hsame⟩ := h.piece heq (List.append_nil data).symm rfl hkept hfine
  have hend : (r.run data).parser.cs = cs ∧ (r.run data).parser.nread = 0 + data.length := exec_of_through hthrough
  refine ⟨⟨uriRelaxed_run.trans h.uriRelaxed, ?_, hfull, hsame, fun hnil => ?_⟩, ?_, ?_⟩
  · rw [hend.1]
    exact hcs
  · exact absurd (List.append_eq_nil_iff.mp hnil).2 hdata
  · rw [hend.2, Nat.zero_add]
  · rw [hend.1]
    exact hstate

/-- The read with the end of a head. -/
theorem Begun.final (h : Begun relaxed head done r) (hhead : IsRequest relaxed head) (heq : head = done ++ x) (hx : x ≠ [])
    (hdata : data = x ++ y)
    (hkept : ∀ q ∈ seen RequestAction.reg (marksAt relaxed done)
        (calls (Http11.table relaxed) (· = .done) done.length r.parser.cs data),
      KeptToken head data done.length q.1 q.2.1 q.2.2) :
    (r.run data).data = (whole relaxed head).data ∧ (r.run data).Fine ∧ (r.run data).parser.cs = 348 ∧
      (r.run data).parser.nread = x.length := by
  have haccepts : Accepts (Http11.table r.parser.uriRelaxed) (· = .done) r.parser.cs x 348 := by
    rw [h.uriRelaxed]
    exact (heq ▸ hhead.accepts : Accepts _ _ 1 (done ++ x) 348).rest hx h.cs
  have hcalls : calls (Http11.table relaxed) (· = .done) done.length r.parser.cs data =
      calls (Http11.table relaxed) (· = .done) done.length r.parser.cs x := by
    rw [hdata, ← h.uriRelaxed]
    exact haccepts.calls_append
  have hfine : (fullAt relaxed head (done ++ x)).Fine := heq ▸ hhead.fullAt_fine
  obtain ⟨-, hsame⟩ := h.piece (z := []) (by rw [heq, List.append_nil]) hdata hcalls hkept hfine
  refine ⟨?_, hsame.fine, ?_, ?_⟩
  · rw [hsame.data, ← heq, whole, run, exec_store]
    rfl
  · rw [hdata]
    exact haccepts.exec_append.1
  · rw [hdata, ← Nat.zero_add x.length]
    exact haccepts.exec_append.2

/-- A read with all of a head keeps its tokens: the method is compared up to a blank at most, and the version up to its
    end. -/
theorem IsRequest.kept (h : IsRequest relaxed head) (hdata : data = head ++ y) {q : Marks × Nat × RequestAction}
    (hq : q ∈ seen RequestAction.reg .zero (calls (Http11.table relaxed) (· = .done) 0 1 data)) :
    KeptToken head data 0 q.1 q.2.1 q.2.2 := by
  rw [hdata, h.accepts.calls_append] at hq
  have hstart : Http11.At 0 1 .zero := ⟨Marks.below_zero 0, Or.inr rfl, fun _ => rfl⟩
  obtain ⟨hbelow, -, hblank⟩ := hstart.token hq
  have hpos := (calls_pos (mem_of_seen hq)).2
  obtain ⟨m, p, a⟩ := q
  have hmark : m.mark ≤ p := hbelow.mark
  have hlt : p < head.length := by rwa [Nat.zero_add] at hpos
  cases a with
  | requestMethod =>
    have hsplit : head.drop m.mark = (head.drop m.mark).take (p - m.mark) ++ 32 :: head.drop (p + 1) := by
      have hget : (head.drop m.mark)[p - m.mark]? = some 32 := by
        rw [List.getElem?_drop, Nat.add_sub_cancel' hmark]
        exact hblank rfl
      obtain ⟨hi, hget⟩ := List.getElem?_eq_some_iff.mp hget
      have hdrop : (head.drop m.mark).drop (p - m.mark + 1) = head.drop (p + 1) := by
        rw [List.drop_drop, ← Nat.add_assoc, Nat.add_sub_cancel' hmark]
      rw [← hdrop, ← hget, ← List.drop_eq_getElem_cons hi, List.take_append_drop]
    show charsToHttpMethod (data.drop (m.mark - 0)) = charsToHttpMethod (head.drop m.mark)
    rw [hdata, Nat.sub_zero, List.drop_append_of_le_length (by omega), hsplit, List.append_assoc, List.cons_append]
    exact charsToHttpMethod_blank
  | httpVersion =>
    have htext : (data.drop m.mark).take (p - m.mark) = (head.drop m.mark).take (p - m.mark) := by
      have hpiece : ((head ++ y).drop (m.mark - ([] : Bytes).length)).take (p - m.mark) =
          (([] ++ head ++ []).drop m.mark).take (p - m.mark) :=
        text_piece (by rw [List.length_nil, Nat.zero_add]; exact Nat.le_of_lt hlt) (Nat.zero_le _)
      rwa [List.length_nil, Nat.sub_zero, ← hdata, List.nil_append, List.append_nil] at hpiece
    show chars2Version (data.drop (m.mark - 0)) (p - max m.mark 0) = chars2Version (head.drop m.mark) (p - m.mark)
    rw [Nat.sub_zero, Nat.max_eq_left (Nat.zero_le _)]
    simp only [chars2Version]
    rw [← strncmpEq_take (s := data.drop m.mark), htext, strncmpEq_take, ← strncmpEq_take (s := data.drop m.mark), htext,
      strncmpEq_take]
  | writeValue => exact ⟨Nat.zero_le _, Nat.zero_le _⟩
  | requestPath => exact Nat.zero_le _
  | fragment => exact Nat.zero_le _
  | queryString => exact Nat.zero_le _
  | _ => trivial

end HttpRequestParser
end Http
end MyHttp

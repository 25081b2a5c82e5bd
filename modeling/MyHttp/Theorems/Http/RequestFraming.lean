import MyHttp.Theorems.Http.RequestCuts

/-! Request framing: along every run whose reads are aligned with the request, `recvRequest` returns the request that the
    client sent, and leaves what follows it. -/

namespace MyHttp
namespace Http
namespace RecvRequest

open Lib.CString Lib.Machine Lib.Run Lib.Scan HttpRequestParser

variable {relaxed : Bool} {head body rest : Bytes} {s s' : RecvRequest}

/-- What is behind `recvRequest` and what is before it, at each place. -/
def Track (relaxed : Bool) (head body rest : Bytes) (s : RecvRequest) : Prop :=
  match s.pc with
  | .headRead =>
    ∃ done todo, head = done ++ todo ∧ todo ≠ [] ∧ s.input = todo ++ body ++ rest ∧ Begun relaxed head done s.parser ∧
      s.data = [] ∧ s.offset = 0
  | .headParse =>
    ∃ done todo, head = done ++ todo ∧ todo ≠ [] ∧ s.data ++ s.input = todo ++ body ++ rest ∧
      Begun relaxed head done s.parser ∧ s.len = s.data.length ∧ s.data ≠ [] ∧ s.data.length ≤ s.buffSize
  | .length =>
    s.data ++ s.input = body ++ rest ∧ rest.length ≤ s.input.length ∧ s.offset = s.data.length ∧
      s.parser.data = (whole relaxed head).data
  | .fixRead =>
    s.body ++ s.input = body ++ rest ∧ s.left = (body.length - s.body.length : Int) ∧ 0 < s.left ∧ 0 < int32 s.fixSize ∧
      s.parser.data = (whole relaxed head).data
  | .returned b => b = true ∧ s.parser.data = request relaxed head body ∧ s.input = rest
  | .fault => False

/-- The buffer is not empty and fits an `int`, and the body fits a string. -/
structure Sized (body : Bytes) (s : RecvRequest) : Prop where
  nonempty : 0 < s.buffSize
  buffSize : s.buffSize < 2 ^ 31
  body : body.length ≤ s.maxSize
  maxSize : s.maxSize < 2 ^ 63

/-- The sizes and the place. -/
structure OnTrack (relaxed : Bool) (head body rest : Bytes) (s : RecvRequest) : Prop where
  sized : Sized body s
  track : Track relaxed head body rest s

theorem onTrack_init {buffSize maxSize : Nat} (hsized : Sized body (init buffSize maxSize relaxed (head ++ body ++ rest)))
    (hhead : IsRequest relaxed head) : OnTrack relaxed head body rest (init buffSize maxSize relaxed (head ++ body ++ rest)) := by
  obtain ⟨init, c, -, -, heq, -⟩ := hhead.accepts
  refine ⟨hsized, [], head, rfl, ?_, rfl, begun_nil relaxed head, rfl, rfl⟩
  rw [heq]
  simp

theorem OnTrack.right (h : OnTrack relaxed head body rest s) : Right (request relaxed head body) s := by
  obtain ⟨⟨hnonempty, -, -, -⟩, htrack⟩ := h
  unfold Track at htrack
  refine ⟨fun hpc => ?_, fun b hpc => ?_, fun hpc => ?_, fun _ _ hs => cost_step hs⟩
  · rw [hpc] at htrack
    exact htrack
  · rw [hpc] at htrack
    exact ⟨htrack.1, htrack.2.1⟩
  · have hread (hasked : 0 ≤ s.asked) (hpc : s.pc = .headRead ∨ s.pc = .fixRead) : ∃ a t, s.step a = some t := by
      obtain ⟨count, hcount⟩ := readable_exists hasked
      refine ⟨.read count, s.read count, ?_⟩
      rcases hpc with hpc | hpc <;> simp [step, hpc, hcount]
    cases hplace : s.pc <;> simp only [hplace] at htrack
    case headRead =>
      obtain ⟨-, -, -, -, -, -, -, hoffset⟩ := htrack
      refine hread ?_ (Or.inl hplace)
      simp only [asked, hplace, hoffset]
      exact Int.natCast_nonneg _
    case fixRead =>
      obtain ⟨-, -, hleft, -⟩ := htrack
      refine hread ?_ (Or.inr hplace)
      simp only [asked, hplace]
      exact Int.le_of_lt hleft
    case returned b => exact absurd hplace (hpc b)
    all_goals exact ⟨.run, _, by simp only [step, hplace]; rfl⟩

/-! ### Reads -/

theorem OnTrack.headRead (h : OnTrack relaxed head body rest s) (hpc : s.pc = .headRead) {count : Nat}
    (hr : s.readable count = true) : OnTrack relaxed head body rest (s.read count) := by
  obtain ⟨hsized, htrack⟩ := h
  have hnonempty := hsized.nonempty
  simp only [Track, hpc] at htrack
  obtain ⟨done, todo, heq, htodo, hinput, hbegun, hdata, hoffset⟩ := htrack
  have hasked : s.asked = s.buffSize := by simp [asked, hpc, hoffset]
  obtain ⟨hpos, hleft, hle, hsmall⟩ := read_some hr (by simp [hinput, htodo]) (by omega)
  have hint : int32 (count + 0) = count := by
    rw [Int.add_zero]
    exact int32_eq (by omega) (by omega)
  have hgot : (s.input.take count).length = count := List.length_take_of_le hleft
  simp only [RecvRequest.read, hpc, if_neg (Nat.ne_of_gt hpos), hdata, hoffset, hint, List.take_nil, List.nil_append]
  refine ⟨{ hsized with }, done, todo, heq, htodo, ?_, hbegun, ?_, ?_, ?_⟩
  · rw [← hinput]
    exact List.take_append_drop ..
  · dsimp only
    rw [hgot]
  · exact List.ne_nil_of_length_pos (by dsimp only; omega)
  · dsimp only
    omega

/-- The first read of a call takes from the client what it puts into the buffer. -/
theorem OnTrack.headRead_bytes (h : OnTrack relaxed head body rest s) (hpc : s.pc = .headRead) {count : Nat}
    (hcount : 0 < count) : (s.read count).data ++ (s.read count).input = s.data ++ s.input := by
  obtain ⟨-, htrack⟩ := h
  simp only [Track, hpc] at htrack
  obtain ⟨-, -, -, -, -, -, hdata, -⟩ := htrack
  simp only [RecvRequest.read, Nat.ne_of_gt hcount, if_false, hpc, hdata, List.take_nil, List.nil_append]
  exact List.take_append_drop ..

theorem OnTrack.fixRead (h : OnTrack relaxed head body rest s) (hpc : s.pc = .fixRead) {count : Nat}
    (hr : s.readable count = true) : OnTrack relaxed head body rest (s.read count) := by
  obtain ⟨hsized, htrack⟩ := h
  simp only [Track, hpc] at htrack
  obtain ⟨hbody, hleft, hpositive, hfix, hdata⟩ := htrack
  have hlen := congrArg List.length hbody
  rw [List.length_append, List.length_append] at hlen
  have hasked : s.asked = s.left := by simp [asked, hpc]
  obtain ⟨hpos, hcount, hle, -⟩ := read_some hr (List.ne_nil_of_length_pos (by omega)) (by omega)
  have hgot : (s.input.take count).length = count := List.length_take_of_le hcount
  simp only [RecvRequest.read, hpc, if_neg (Nat.ne_of_gt hpos)]
  have hbody' : s.body ++ s.input.take count ++ s.input.drop count = body ++ rest := by
    rw [List.append_assoc, List.take_append_drop, hbody]
  have hlen' : (s.body ++ s.input.take count).length = s.body.length + count := by rw [List.length_append, hgot]
  split_ifs with hmore hbad
  · refine ⟨{ hsized with }, hbody', ?_, hmore, hfix, hdata⟩
    dsimp only
    omega
  · omega
  · obtain ⟨hall, hrest⟩ := List.append_inj hbody' (by omega)
    refine ⟨{ hsized with }, rfl, ?_, hrest⟩
    dsimp only [finish, request]
    rw [hdata, hall]

/-! ### The code between the reads -/

/-- What the buffer and the client still have tells where the buffer begins. -/
theorem position_eq {done todo : Bytes} (heq : head = done ++ todo) (hinput : s.data ++ s.input = todo ++ body ++ rest) :
    s.position (head ++ body ++ rest) = done.length := by
  have hlen := congrArg List.length hinput
  simp only [List.length_append] at hlen
  simp only [position, heq, List.length_append]
  omega

/-- A parse without a failure goes on. -/
theorem headParse_next (hfine : (s.parser.run s.data).Fine) (hcs : (s.parser.run s.data).parser.cs ≠ 0)
    (hfull : s.len - (s.parser.run s.data).parser.nread ≠ int32 s.buffSize) :
    s.headParse =
      { s with
        pc := if (s.parser.run s.data).isFinished then .length else .headRead
        data := s.data.drop (s.parser.run s.data).parser.nread
        offset := s.len - (s.parser.run s.data).parser.nread
        parser := s.parser.run s.data
        consumed := s.consumed + (s.parser.run s.data).parser.nread } := by
  rcases s.headParse_cases with ⟨-, hthrown⟩ | ⟨-, herr | hoffset⟩ | ⟨-, hnext⟩
  · rw [hfine.2] at hthrown
    cases hthrown
  · simp [hasError, hfine.1, hcs] at herr
  · exact absurd hoffset hfull
  · exact hnext

theorem OnTrack.headParse (h : OnTrack relaxed head body rest s) (hhead : IsRequest relaxed head)
    (hpc : s.pc = .headParse) (hok : Aligned head body rest s .run) : OnTrack relaxed head body rest s.headParse := by
  obtain ⟨hsized, htrack⟩ := h
  have hbuff := hsized.buffSize
  have hnonempty := hsized.nonempty
  simp only [Track, hpc] at htrack
  obtain ⟨done, todo, heq, htodo, hinput, hbegun, hlen, hdata, hle⟩ := htrack
  have hint : int32 s.buffSize = s.buffSize := int32_eq (by omega) (by omega)
  have htake : head.take done.length = done := by rw [heq, List.take_left]
  simp only [Aligned, hpc, position_eq heq hinput, htake, hbegun.uriRelaxed] at hok
  obtain ⟨hrest, hkept⟩ := hok
  have hcases : (∃ z, z ≠ [] ∧ todo = s.data ++ z ∧ s.input = z ++ body ++ rest) ∨
      ∃ y, s.data = todo ++ y ∧ body ++ rest = y ++ s.input := by
    rw [List.append_assoc] at hinput
    rcases List.append_eq_append_iff.mp hinput with ⟨z, htodo', hz⟩ | ⟨y, hy, hbody⟩
    · by_cases hnil : z = []
      · subst hnil
        exact Or.inr ⟨[], by simpa using htodo'.symm, by simpa using hz.symm⟩
      · exact Or.inl ⟨z, hnil, htodo', by rw [hz, List.append_assoc]⟩
    · exact Or.inr ⟨y, hy, hbody⟩
  rcases hcases with ⟨z, hz, rfl, hinput'⟩ | ⟨y, hy, hbody⟩
  · -- the head goes on in the next read
    rw [← List.append_assoc] at heq
    obtain ⟨hmore, hnread, hcs, hlt⟩ := hbegun.more hhead heq hz hdata hkept
    have hnot : (s.parser.run s.data).isFinished = false := decide_eq_false (Nat.not_le_of_lt hlt)
    have hzero : s.len - (s.parser.run s.data).parser.nread = 0 := by rw [hnread, hlen, Int.sub_self]
    rw [headParse_next hmore.same.fine hcs (by rw [hzero, hint]; omega), hnot, hzero, hnread, List.drop_length]
    exact ⟨{ hsized with }, done ++ s.data, z, heq, hz, hinput', hmore, rfl, rfl⟩
  · -- the read has the end of the head
    obtain ⟨hrequest, hfine, hcs, hnread⟩ := hbegun.final hhead heq htodo hy hkept
    have hdone : (s.parser.run s.data).isFinished = true := by simp [isFinished, hcs]
    have hleny : s.data.length = todo.length + y.length := by rw [hy, List.length_append]
    have htodo' : 0 < todo.length := List.length_pos_iff.mpr htodo
    have hdrop : s.data.drop todo.length = y := by rw [hy, List.drop_left]
    rw [headParse_next hfine (by rw [hcs]; decide) (by rw [hnread, hlen, hint]; omega), hdone, hnread, hdrop]
    exact ⟨{ hsized with }, hbody.symm, hrest, by dsimp only; omega, hrequest⟩

theorem OnTrack.length (h : OnTrack relaxed head body rest s) (hsent : Sent relaxed head body) (hpc : s.pc = .length)
    (hok : Aligned head body rest s .run) : OnTrack relaxed head body rest s.length := by
  obtain ⟨hsized, htrack⟩ := h
  have hfits := hsized.body
  have hmax := hsized.maxSize
  simp only [Track, hpc] at htrack
  obtain ⟨hbody, hrest, hoffset, hdata⟩ := htrack
  simp only [Aligned, hpc] at hok
  have hcontent : int64 s.parser.getContentLength = body.length := by
    have hcount : s.parser.getContentLength = body.length := by
      rw [getContentLength, hdata]
      exact hsent.length
    rw [hcount, int64, if_pos (by omega)]
  have hlen := congrArg List.length hbody
  rw [List.length_append, List.length_append] at hlen
  unfold RecvRequest.length
  dsimp only
  rw [hcontent, hoffset]
  by_cases hpos : (body.length : Int) > 0
  · rw [if_pos hpos, if_neg (by omega), if_pos (by omega : (body.length : Int) ≥ s.data.length)]
    simp only [Int.toNat_natCast, List.take_length]
    split_ifs with hmore
    · exact ⟨{ hsized with }, hbody, rfl, hmore, hok.resolve_left (by omega), hdata⟩
    · obtain ⟨hall, hinput⟩ := List.append_inj hbody (by omega)
      refine ⟨{ hsized with }, rfl, ?_, hinput⟩
      dsimp only [finish, request]
      rw [hdata, hall]
  · rw [if_neg hpos]
    have hnil : body = [] := List.length_eq_zero_iff.mp (by omega)
    subst hnil
    obtain ⟨-, hinput⟩ := List.append_inj hbody (by simpa using show s.data.length = 0 by simp at hlen; omega)
    refine ⟨{ hsized with }, rfl, ?_, hinput⟩
    have hnone : (whole relaxed head).data.body = [] := data_run.2
    dsimp only [request]
    rw [hdata, ← hnone]

theorem OnTrack.step (h : OnTrack relaxed head body rest s) (hsent : Sent relaxed head body) {a : RecvAct}
    (hok : Aligned head body rest s a) (hs : s.step a = some s') : OnTrack relaxed head body rest s' := by
  cases a with
  | read count =>
    obtain ⟨hr, rfl, hpc | hpc⟩ := step_read hs
    · exact h.headRead hpc hr
    · exact h.fixRead hpc hr
  | run =>
    rcases step_run hs with ⟨hpc, rfl⟩ | ⟨hpc, rfl⟩
    · exact h.headParse hsent.isRequest hpc hok
    · exact h.length hsent hpc hok

/-- In every run whose steps are aligned with the request, the call returns the request of the head in one piece. -/
theorem recvRequest_segments {buffSize maxSize : Nat} (hsent : Sent relaxed head body)
    (hbuff : 0 < buffSize ∧ buffSize < 2 ^ 31) (hbody : body.length ≤ maxSize ∧ maxSize < 2 ^ 63)
    (h : Reach step (Aligned head body []) (init buffSize maxSize relaxed (head ++ body)) s) :
    Right (request relaxed head body) s := by
  have hsized : Sized body (init buffSize maxSize relaxed (head ++ body ++ [])) := ⟨hbuff.1, hbuff.2, hbody.1, hbody.2⟩
  have hstart := onTrack_init hsized hsent.isRequest
  rw [List.append_nil] at hstart
  exact (h.invariant (P := OnTrack relaxed head body []) hstart fun _ _ _ hi hok hs => hi.step hsent hok hs).right

/-- A request with a body, one line in a read and the body in two. -/
theorem recvRequest_segments_lines : ∃ s, s.pc = .returned true ∧
    Right (request false (ascii "POST /a?b=c HTTP/1.1\r\nHost: d\r\nContent-Length: 3\r\n\r\n") (ascii "abc")) s := by
  let head := ascii "POST /a?b=c HTTP/1.1\r\nHost: d\r\nContent-Length: 3\r\n\r\n"
  let s := (exec step (Aligned head (ascii "abc") []) (init 64 (2 ^ 62) false (head ++ ascii "abc"))
    [.read 22, .run, .read 9, .run, .read 19, .run, .read 3, .run, .run, .read 2]).get (by decide +kernel)
  have h : Reach step (Aligned head (ascii "abc") []) (init 64 (2 ^ 62) false (head ++ ascii "abc")) s :=
    reach_of_exec (Option.some_get _).symm
  have hhead : IsRequest false head := ⟨by decide +kernel, by decide +kernel, by decide +kernel, by decide +kernel⟩
  have hsent : Sent false head (ascii "abc") := ⟨hhead, by decide +kernel⟩
  exact ⟨s, by decide +kernel, recvRequest_segments hsent (by decide) (by decide) h⟩

/-- A cut inside the method: the second read begins with what is no method. -/
theorem method_cut : ¬∀ relaxed head body buffSize maxSize s, Sent relaxed head body → head.length ≤ buffSize →
    buffSize < 2 ^ 31 → body.length ≤ maxSize → maxSize < 2 ^ 63 →
    Reach step (fun _ _ => True) (init buffSize maxSize relaxed (head ++ body)) s →
    Right (request relaxed head body) s := by
  intro h
  let head := ascii "GET / HTTP/1.1\r\n\r\n"
  let s := (exec step (fun _ _ => True) (init 64 (2 ^ 62) false (head ++ [])) [.read 2, .run, .read 16, .run]).get
    (by decide +kernel)
  have hr : Reach step (fun _ _ => True) (init 64 (2 ^ 62) false (head ++ [])) s := reach_of_exec (Option.some_get _).symm
  have hhead : IsRequest false head := ⟨by decide +kernel, by decide +kernel, by decide +kernel, by decide +kernel⟩
  have hright := h false head [] 64 (2 ^ 62) s ⟨hhead, by decide +kernel⟩ (by decide) (by decide) (by decide) (by decide) hr
  have hnull : s.pc = .returned false := by decide +kernel
  exact absurd (hright.returned _ hnull).1 (by decide)

end RecvRequest
end Http
end MyHttp

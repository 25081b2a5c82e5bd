import MyHttp.Theorems.Http.ChunkHeader
import MyHttp.Theorems.Http.ResponseBounds

/-! Response framing: along every run whose reads are aligned with the message, `recvResponse` returns the body that the
    peer sent. -/

namespace MyHttp
namespace Http
namespace RecvResponse

open Lib.CString Lib.Machine Lib.Run Lib.Scan HttpResponseParser

variable {head payload body : Bytes} {s s' : RecvResponse} {c : Chunk} {cs : List Chunk}

/-- The chunks that are not read yet. -/
structure AtChunks (body : Bytes) (cs : List Chunk) (s : RecvResponse) : Prop where
  ended : Ended cs
  input : s.data ++ s.input = cs.flatMap Chunk.bytes
  body : s.body ++ cs.flatMap Chunk.data = body
  error : s.parser.error = 0

/-- A chunk whose header is read, and the chunks after it. -/
structure InChunk (body : Bytes) (c : Chunk) (cs : List Chunk) (s : RecvResponse) : Prop where
  ended : Ended (c :: cs)
  input : s.data ++ s.input = c.data ++ crlf ++ cs.flatMap Chunk.bytes
  body : s.body ++ c.data ++ cs.flatMap Chunk.data = body
  error : s.parser.error = 0
  contentLen : s.parser.parser.contentLen = c.data.length
  chunksDone : s.parser.parser.chunksDone = decide (c.data = [])

/-- What is behind `recvResponse` and what is before it, at each place. -/
def Track (head payload body : Bytes) (s : RecvResponse) : Prop :=
  match s.pc with
  | .headRead =>
    ∃ done todo, head = done ++ todo ∧ todo ≠ [] ∧ s.input = todo ++ payload ∧ Begun head done s.parser ∧
      s.data = [] ∧ s.offset = 0
  | .headParse =>
    ∃ done todo, head = done ++ todo ∧ todo ≠ [] ∧ s.data ++ s.input = todo ++ payload ∧ Begun head done s.parser ∧
      s.len = s.data.length ∧ s.data.length ≤ s.buffSize
  | .chunkRead => ∃ cs, AtChunks body cs s ∧ s.len = s.data.length ∧ s.data.length < s.buffSize
  | .chunkParse => ∃ cs, AtChunks body cs s ∧ s.len = s.data.length ∧ s.data.length ≤ s.buffSize ∧ s.data ≠ []
  | .trim => ∃ c cs, InChunk body c cs s ∧ s.len = s.data.length
  | .take =>
    ∃ c cs, InChunk body c cs s ∧ s.len + 2 = s.data.length ∧ 2 ≤ s.data.length ∧ s.data.length ≤ c.data.length + 2 ∧
      (c.data ++ crlf).drop s.data.length = c.data.drop (s.data.length - 2)
  | .leftRead =>
    ∃ piece cs, Ended cs ∧ s.input = piece ++ cs.flatMap Chunk.bytes ∧ s.body ++ piece ++ cs.flatMap Chunk.data = body ∧
      s.left = piece.length ∧ piece ≠ [] ∧ s.parser.error = 0 ∧ s.parser.parser.chunksDone = false
  | .length =>
    s.data ++ s.input = body ∧ s.offset = s.data.length ∧ s.parser.getContentLength = body.length ∧
      s.parser.data.body = []
  | .fixRead => s.body ++ s.input = body ∧ s.left = s.input.length ∧ s.input ≠ [] ∧ 0 < int32 s.fixSize
  | .returned response => response = true ∧ s.parser.data.body = body
  | .fault => False

/-- The buffer is not empty and fits an `int`, and the body fits a string. -/
structure Sized (body : Bytes) (s : RecvResponse) : Prop where
  nonempty : 0 < s.buffSize
  buffSize : s.buffSize < 2 ^ 31
  body : body.length ≤ s.maxSize
  maxSize : s.maxSize < 2 ^ 63

/-- The sizes and the place. -/
structure OnTrack (head payload body : Bytes) (s : RecvResponse) : Prop where
  sized : Sized body s
  track : Track head payload body s

/-- A read that the message leaves something for gets some of it. -/
theorem read_some {count : Nat} (h : s.readable count = true) (hinput : s.input ≠ []) (hasked : s.asked ≠ 0) :
    0 < count ∧ count ≤ s.input.length ∧ count ≤ s.asked := by
  unfold readable at h
  rw [if_neg (not_or.mpr ⟨hinput, hasked⟩)] at h
  simp only [Bool.and_eq_true, decide_eq_true_eq] at h
  exact ⟨h.1.1, h.1.2, h.2⟩

theorem readable_exists (h : 0 ≤ s.asked) : ∃ count, s.readable count = true := by
  by_cases hnone : s.input = [] ∨ s.asked = 0
  · exact ⟨0, by simp [readable, hnone]⟩
  · obtain ⟨hinput, hasked⟩ := not_or.mp hnone
    have hlen : 0 < s.input.length := List.length_pos_iff.mpr hinput
    refine ⟨1, ?_⟩
    rw [readable, if_neg hnone]
    simp only [Bool.and_eq_true, decide_eq_true_eq]
    exact ⟨⟨Nat.one_pos, hlen⟩, by omega⟩

theorem OnTrack.right (h : OnTrack head payload body s) : Right body s := by
  obtain ⟨⟨hnonempty, hbuff, -, -⟩, htrack⟩ := h
  unfold Track at htrack
  refine ⟨fun hpc => ?_, fun response hpc => ?_, fun hpc => ?_⟩
  · rw [hpc] at htrack
    exact htrack
  · rw [hpc] at htrack
    exact htrack
  · have hread (hasked : 0 ≤ s.asked) (hpc : s.pc = .headRead ∨ s.pc = .chunkRead ∨ s.pc = .leftRead ∨ s.pc = .fixRead) :
        ∃ a t, s.step a = some t := by
      obtain ⟨count, hcount⟩ := readable_exists hasked
      refine ⟨.read count, s.read count, ?_⟩
      rcases hpc with hpc | hpc | hpc | hpc <;> simp [step, hpc, hcount]
    cases hplace : s.pc <;> simp only [hplace] at htrack
    case headRead =>
      obtain ⟨-, -, -, -, -, -, -, hoffset⟩ := htrack
      refine hread ?_ (Or.inl hplace)
      simp only [asked, hplace, hoffset]
      omega
    case chunkRead =>
      obtain ⟨-, -, hlen, hlt⟩ := htrack
      refine hread ?_ (Or.inr (Or.inl hplace))
      simp only [asked, hplace, hlen]
      omega
    case leftRead =>
      obtain ⟨piece, -, -, -, -, hleft, -⟩ := htrack
      refine hread ?_ (Or.inr (Or.inr (Or.inl hplace)))
      simp only [asked, hplace, int32_eq (Int.natCast_nonneg _) (show (s.buffSize : Int) < 2 ^ 31 by omega)]
      split_ifs <;> omega
    case fixRead =>
      obtain ⟨-, hleft, -⟩ := htrack
      refine hread ?_ (Or.inr (Or.inr (Or.inr hplace)))
      simp only [asked, hplace]
      omega
    case returned response => exact absurd hplace (hpc response)
    all_goals exact ⟨.run, _, by simp only [step, hplace]; rfl⟩

/-! ### Reads -/

theorem OnTrack.headRead (h : OnTrack head payload body s) (hpc : s.pc = .headRead) {count : Nat}
    (hr : s.readable count = true) : OnTrack head payload body (s.read count) := by
  obtain ⟨hsized, htrack⟩ := h
  have hbuff := hsized.buffSize
  simp only [Track, hpc] at htrack
  obtain ⟨done, todo, heq, htodo, hinput, hbegun, hdata, hoffset⟩ := htrack
  have hasked : s.asked = s.buffSize := by simp [asked, hpc, hoffset]
  obtain ⟨hpos, hleft, hle⟩ := read_some hr (by simp [hinput, htodo]) (by have := hsized.nonempty; omega)
  have hint : int32 (count + 0) = count := by
    rw [Int.add_zero]
    exact int32_eq (by omega) (by omega)
  simp only [RecvResponse.read, hpc, if_neg (Nat.ne_of_gt hpos), hdata, hoffset, hint, List.take_nil, List.nil_append]
  refine ⟨{ hsized with }, done, todo, heq, htodo, ?_, hbegun, ?_, ?_⟩
  · rw [← hinput]
    exact List.take_append_drop ..
  · rw [List.length_take_of_le hleft]
  · rw [List.length_take_of_le hleft]
    dsimp only
    omega

theorem OnTrack.chunkRead (h : OnTrack head payload body s) (hpc : s.pc = .chunkRead) {count : Nat}
    (hr : s.readable count = true) (hinput : s.input ≠ []) : OnTrack head payload body (s.read count) := by
  obtain ⟨hsized, htrack⟩ := h
  have hbuff := hsized.buffSize
  simp only [Track, hpc] at htrack
  obtain ⟨cs, hchunks, hlen, hlt⟩ := htrack
  have hasked : s.asked = s.buffSize - s.data.length := by simp [asked, hpc, hlen]
  obtain ⟨hpos, hleft, hle⟩ := read_some hr hinput (by omega)
  have hint : int32 (s.data.length + count) = s.data.length + count := int32_eq (by omega) (by omega)
  have hgot : (s.input.take count).length = count := List.length_take_of_le hleft
  simp only [RecvResponse.read, hpc, if_neg (Nat.ne_of_gt hpos), hlen, hint, Int.toNat_natCast, List.take_length]
  refine ⟨{ hsized with }, cs, ⟨hchunks.ended, ?_, hchunks.body, hchunks.error⟩, ?_, ?_, ?_⟩
  · dsimp only
    rw [List.append_assoc, List.take_append_drop, hchunks.input]
  · dsimp only
    rw [List.length_append, hgot]
    omega
  · dsimp only
    rw [List.length_append, hgot]
    omega
  · intro hnil
    have hnil := congrArg List.length hnil
    rw [List.length_append, hgot, List.length_nil] at hnil
    omega

/-- Behind a chunk comes the next one, or the end. -/
theorem nextChunk_track (hsized : Sized body s)
    (hnext : s.parser.parser.chunksDone = true ∧ cs = [] ∨ s.parser.parser.chunksDone = false ∧ Ended cs)
    (hdata : s.data = []) (hlen : s.len = 0) (hinput : s.input = cs.flatMap Chunk.bytes)
    (hbody : s.body ++ cs.flatMap Chunk.data = body) (herror : s.parser.error = 0) :
    OnTrack head payload body s.nextChunk := by
  unfold nextChunk
  rcases hnext with ⟨hdone, rfl⟩ | ⟨hdone, hended⟩
  · rw [if_pos hdone]
    rw [List.flatMap_nil, List.append_nil] at hbody
    exact ⟨{ hsized with }, rfl, hbody⟩
  · rw [hdone, if_neg Bool.false_ne_true]
    refine ⟨{ hsized with }, cs, ⟨hended, ?_, hbody, herror⟩, ?_, ?_⟩
    · simp [hdata, hinput]
    · simp [hdata, hlen]
    · simpa [hdata] using hsized.nonempty

theorem OnTrack.leftRead (h : OnTrack head payload body s) (hpc : s.pc = .leftRead) {count : Nat}
    (hr : s.readable count = true) : OnTrack head payload body (s.read count) := by
  obtain ⟨hsized, htrack⟩ := h
  have hbuff := hsized.buffSize
  have hnonempty := hsized.nonempty
  have hfits := hsized.body
  simp only [Track, hpc] at htrack
  obtain ⟨piece, cs, hended, hinput, hbody, hleft, hpiece, herror, hdone⟩ := htrack
  have hpos : 0 < piece.length := List.length_pos_iff.mpr hpiece
  have hasked : 0 < s.asked ∧ s.asked ≤ piece.length := by
    simp only [asked, hpc, hleft, int32_eq (Int.natCast_nonneg s.buffSize) (by omega)]
    split_ifs <;> constructor <;> omega
  obtain ⟨hcount, -, hle⟩ := read_some hr (by simp [hinput, hpiece]) (by omega)
  have hcountle : count ≤ piece.length := by omega
  have hgot : s.input.take count = piece.take count := by rw [hinput, List.take_append_of_le_length hcountle]
  have hrest : s.input.drop count = piece.drop count ++ cs.flatMap Chunk.bytes := by
    rw [hinput, List.drop_append_of_le_length hcountle]
  have hlen := congrArg List.length hbody
  simp only [List.length_append] at hlen
  simp only [RecvResponse.read, hpc, if_neg (Nat.ne_of_gt hcount), hgot, hrest]
  rw [if_neg (by omega)]
  have hbody' : s.body ++ piece.take count ++ piece.drop count ++ cs.flatMap Chunk.data = body := by
    rw [List.append_assoc s.body, List.take_append_drop, hbody]
  split_ifs with hmore
  · refine ⟨{ hsized with }, piece.drop count, cs, hended, rfl, hbody', ?_, ?_, herror, hdone⟩
    · simp only [hleft, List.length_drop]
      omega
    · intro hnil
      have hnil := congrArg List.length hnil
      rw [List.length_drop, List.length_nil] at hnil
      omega
  · have hnil : piece.drop count = [] := List.drop_eq_nil_of_le (by omega)
    rw [hnil, List.append_nil] at hbody'
    exact nextChunk_track { hsized with } (Or.inr ⟨hdone, hended⟩) rfl rfl
      (by rw [hnil, List.nil_append]) hbody' herror

theorem OnTrack.fixRead (h : OnTrack head payload body s) (hpc : s.pc = .fixRead) {count : Nat}
    (hr : s.readable count = true) : OnTrack head payload body (s.read count) := by
  obtain ⟨hsized, htrack⟩ := h
  simp only [Track, hpc] at htrack
  obtain ⟨hbody, hleft, hinput, hfix⟩ := htrack
  have hlen : 0 < s.input.length := List.length_pos_iff.mpr hinput
  have hasked : s.asked = s.input.length := by simp [asked, hpc, hleft]
  obtain ⟨hpos, hcount, -⟩ := read_some hr hinput (by omega)
  simp only [RecvResponse.read, hpc, if_neg (Nat.ne_of_gt hpos), hleft]
  have hbody' : s.body ++ s.input.take count ++ s.input.drop count = body := by
    rw [List.append_assoc, List.take_append_drop, hbody]
  split_ifs with hmore hbad
  · refine ⟨{ hsized with }, hbody', ?_, ?_, hfix⟩
    · dsimp only
      rw [List.length_drop]
      omega
    · intro hnil
      have hnil := congrArg List.length hnil
      rw [List.length_drop, List.length_nil] at hnil
      omega
  · omega
  · have hnil : s.input.drop count = [] := List.drop_eq_nil_of_le (by omega)
    rw [hnil, List.append_nil] at hbody'
    exact ⟨{ hsized with }, rfl, hbody'⟩

/-! ### The code between the reads -/

/-- What the buffer and the peer still have tells where the buffer begins. -/
theorem position_eq {done todo : Bytes} (heq : head = done ++ todo) (hinput : s.data ++ s.input = todo ++ payload) :
    s.position (head ++ payload) = done.length := by
  have hlen := congrArg List.length hinput
  rw [List.length_append, List.length_append] at hlen
  rw [position, heq, List.length_append, List.length_append]
  omega

theorem OnTrack.headParse (h : OnTrack head payload body s) (hhead : IsHead head) (hfin : (whole head).isFinished = true)
    (hframed : Framed head payload body) (hpc : s.pc = .headParse) (hok : Aligned head payload s .run) :
    OnTrack head payload body s.headParse := by
  obtain ⟨hsized, htrack⟩ := h
  have hbuff := hsized.buffSize
  have hnonempty := hsized.nonempty
  simp only [Track, hpc] at htrack
  obtain ⟨done, todo, heq, htodo, hinput, hbegun, hlen, hle⟩ := htrack
  have hint : int32 s.buffSize = s.buffSize := int32_eq (by omega) (by omega)
  have hkept : ∀ q ∈ seen ClientAction.reg (marksAt done)
      (calls Client.table (· = .done) done.length s.parser.parser.cs s.data),
      Kept head s.data done.length q.1 q.2.1 q.2.2 := by
    have htake : head.take done.length = done := by rw [heq, List.take_left]
    simp only [Aligned, hpc, position_eq heq hinput, htake] at hok
    exact hok
  have hbody : (s.parser.run s.data).parser.bodyStart ≤ s.data.length :=
    run_bodyStart_le (by rw [hbegun.bodyStart]; exact Nat.zero_le _)
  simp only [RecvResponse.headParse, execute, Bool.false_eq_true, if_false]
  rw [if_neg (by omega)]
  have hcases : (∃ rest, rest ≠ [] ∧ todo = s.data ++ rest ∧ s.input = rest ++ payload) ∨
      ∃ left, s.data = todo ++ left ∧ payload = left ++ s.input := by
    rcases List.append_eq_append_iff.mp hinput with ⟨rest, htodo', hrest⟩ | hleft
    · by_cases hnil : rest = []
      · subst hnil
        exact Or.inr ⟨[], by simpa using htodo'.symm, by simpa using hrest.symm⟩
      · exact Or.inl ⟨rest, hnil, htodo', hrest⟩
    · exact Or.inr hleft
  rcases hcases with ⟨rest, hrest, rfl, hinput'⟩ | ⟨left, hdata, hpayload⟩
  · -- the head goes on in the next read
    rw [← List.append_assoc] at heq
    obtain ⟨hmore, hnread, hcs, hlt⟩ := hbegun.more hhead heq hrest hkept
    have herr : (s.parser.run s.data).hasError = false := by simp [hasError, hmore.same.error, hcs]
    have hnot : (s.parser.run s.data).isFinished = false := by
      simp only [isFinished, decide_eq_false_iff_not]
      omega
    rw [herr, if_neg Bool.false_ne_true, hnread, hlen, Int.sub_self, hint, if_neg (by omega), hnot, if_neg Bool.false_ne_true, List.drop_length]
    exact ⟨{ hsized with }, done ++ s.data, rest, heq, hrest, hinput', hmore, rfl, rfl⟩
  · -- the read has the end of the head
    obtain ⟨hsame, hcs, hnread⟩ := hbegun.final hhead heq htodo hdata hkept
    have hcs' : (s.parser.run s.data).parser.cs = 120 := by simpa [isFinished, hcs] using hfin
    have herr : (s.parser.run s.data).hasError = false := by simp [hasError, hsame.error, hcs']
    have hdone : (s.parser.run s.data).isFinished = true := by simp [isFinished, hcs']
    have hlenleft : s.data.length = todo.length + left.length := by rw [hdata, List.length_append]
    have hlentodo : 0 < todo.length := List.length_pos_iff.mpr htodo
    have hdrop : s.data.drop todo.length = left := by rw [hdata, List.drop_left]
    have hoffset : s.len - (todo.length : Int) = left.length := by omega
    rw [herr, if_neg Bool.false_ne_true, hnread, hoffset, hint, if_neg (by omega), hdone, if_pos rfl, hdrop, hsame.chunked]
    cases hframed with
    | length hchunked hlength =>
      rw [hchunked, if_neg Bool.false_ne_true]
      refine ⟨{ hsized with }, hpayload.symm, rfl, ?_, hsame.body⟩
      rcases hsame.length with hbad | hget
      · rw [hchunked] at hbad
        cases hbad
      · rw [← hlength]
        simp only [getContentLength, getHeaderAs]
        exact congrArg (fun v => (v.bind lexicalCast).getD 0) hget
    | chunks hchunked hended =>
      rw [hchunked, if_pos rfl]
      refine ⟨{ hsized with }, _, ⟨hended, hpayload.symm, ?_, hsame.error⟩, rfl, ?_⟩
      · exact List.nil_append _
      · dsimp only
        omega

theorem OnTrack.chunkParse (h : OnTrack head payload body s) (hpc : s.pc = .chunkParse) (hok : Aligned head payload s .run) :
    OnTrack head payload body s.chunkParse := by
  obtain ⟨hsized, htrack⟩ := h
  have hbuff := hsized.buffSize
  have hnonempty := hsized.nonempty
  simp only [Track, hpc] at htrack
  obtain ⟨cs, ⟨hended, hinput, hbody, herror⟩, hlen, hle, hdata⟩ := htrack
  simp only [Aligned, hpc] at hok
  obtain ⟨hsize, hline⟩ := hok
  have hint : int32 s.buffSize = s.buffSize := int32_eq (by omega) (by omega)
  obtain ⟨c, cs, rfl⟩ : ∃ c cs', cs = c :: cs' := by
    cases cs with
    | nil => exact hended.elim
    | cons c cs => exact ⟨c, cs, rfl⟩
  simp only [List.flatMap_cons, Chunk.bytes] at hinput
  rcases hline with hlf | ⟨hzeros, hnext⟩
  · -- the line is there: what the buffer has begins with it
    obtain ⟨rest, hrest⟩ : ∃ rest, s.data = c.size ++ crlf ++ rest := by
      rw [List.append_assoc (c.size ++ crlf), List.append_assoc (c.size ++ crlf)] at hinput
      rcases List.append_eq_append_iff.mp hinput with ⟨rest, hcut, -⟩ | ⟨rest, hrest, -⟩
      · obtain rfl := line_whole hcut.symm hlf
        exact ⟨[], by simpa using hcut.symm⟩
      · exact ⟨rest, hrest⟩
    have hline : Header s.parser (s.parser.execute s.data true).1 (int32 (strtol s.data 16)) ∧
        (s.parser.execute s.data true).2 = c.size.length + 2 := by
      rw [hrest]
      exact execute_line c.nonempty c.hex
    obtain ⟨hheader, hnparse⟩ := hline
    have hcontent : int32 (strtol s.data 16) = c.data.length := by
      rw [hrest] at hsize ⊢
      exact strtol_chunk hsize
    rw [hcontent] at hheader
    have hlendata : s.data.length = c.size.length + 2 + rest.length := by rw [hrest, List.length_append, List.length_append]; rfl
    have hdrop : s.data.drop (c.size.length + 2) = rest := by
      rw [hrest]
      exact List.drop_left' (by simp [crlf])
    have herr : (s.parser.execute s.data true).1.hasError = false := by
      simp [hasError, hheader.error, herror, hheader.cs]
    have hdone : (s.parser.execute s.data true).1.isFinished = true := by simp [isFinished, hheader.cs]
    have hlen' : s.len - ((c.size.length + 2 : Nat) : Int) = rest.length := by omega
    simp only [RecvResponse.chunkParse]
    rw [herr, if_neg Bool.false_ne_true, hnparse, hlen', hint, if_neg (by omega), hdone, if_pos rfl, hdrop]
    refine ⟨{ hsized with }, c, cs, ⟨hended, ?_, ?_, ?_, hheader.contentLen, ?_⟩, rfl⟩
    · rw [hrest] at hinput
      simpa using hinput
    · simpa using hbody
    · exact hheader.error.trans herror
    · rw [hheader.chunksDone]
      simp
  · -- only zeros: what is left of the header has the same size
    have hsplit : s.data ++ s.input = c.size ++ (crlf ++ c.data ++ crlf ++ cs.flatMap Chunk.bytes) := by
      simpa using hinput
    obtain ⟨size, hcsize, hinput', hne⟩ : ∃ size, c.size = s.data ++ size ∧
        s.input = size ++ (crlf ++ c.data ++ crlf ++ cs.flatMap Chunk.bytes) ∧ size ≠ [] := by
      rcases List.append_eq_append_iff.mp hsplit with ⟨size, hcsize, hrest⟩ | ⟨left, hleft, hrest⟩
      · refine ⟨size, hcsize, hrest, ?_⟩
        rintro rfl
        rw [hrest] at hnext
        have hcr : isxdigit 13 = true := hnext
        exact absurd hcr (by decide)
      · cases left with
        | nil =>
          rw [List.nil_append] at hrest
          rw [← hrest] at hnext
          have hcr : isxdigit 13 = true := hnext
          exact absurd hcr (by decide)
        | cons z left =>
          have hz : z = 48 := hzeros z (hleft ▸ List.mem_append_right _ List.mem_cons_self)
          have hcr : (13 : UInt8) = z := by simpa [crlf] using (List.cons.inj hrest).1
          exact absurd (hcr.trans hz) (by decide)
    have hhex : ∀ z ∈ s.data, isxdigit z = true := fun z hz => c.hex z (hcsize ▸ List.mem_append_left _ hz)
    obtain ⟨hcs, herr', hnparse⟩ := execute_digits (r := s.parser) hdata hhex
    have herr : (s.parser.execute s.data true).1.hasError = false := by simp [hasError, herr', herror, hcs]
    have hdone : (s.parser.execute s.data true).1.isFinished = false := by simp [isFinished, hcs]
    simp only [RecvResponse.chunkParse]
    rw [herr, if_neg Bool.false_ne_true, hnparse, hlen, Int.sub_self, hint, if_neg (by omega), hdone,
      if_neg Bool.false_ne_true, List.drop_length]
    refine ⟨{ hsized with }, c.dropZeros s.data size hcsize hne hzeros :: cs, ⟨?_, ?_, ?_, ?_⟩, rfl, hnonempty⟩
    · rw [ended_cons] at hended ⊢
      exact hended
    · rw [List.nil_append, hinput']
      simp [Chunk.bytes, Chunk.dropZeros]
    · exact hbody
    · exact herr'.trans herror

theorem OnTrack.trim (h : OnTrack head payload body s) (hpc : s.pc = .trim) (hok : Aligned head payload s .run) :
    OnTrack head payload body { s with pc := .take, len := s.len - 2 } := by
  obtain ⟨hsized, htrack⟩ := h
  simp only [Track, hpc] at htrack
  obtain ⟨c, cs, hchunk, hlen⟩ := htrack
  simp only [Aligned, hpc, hchunk.contentLen, Int.toNat_natCast, hchunk.input] at hok
  obtain ⟨hmin, hmax, hcut⟩ := hok
  have hcrlf : (c.data ++ crlf ++ cs.flatMap Chunk.bytes).take (c.data.length + 2) = c.data ++ crlf :=
    List.take_left' (by simp [crlf])
  have hdata : (c.data ++ crlf ++ cs.flatMap Chunk.bytes).take c.data.length = c.data := by
    rw [List.append_assoc, List.take_left]
  rw [hcrlf, hdata] at hcut
  refine ⟨{ hsized with }, c, cs, { hchunk with }, ?_, hmin, hmax, hcut⟩
  dsimp only
  omega

theorem OnTrack.take (h : OnTrack head payload body s) (hpc : s.pc = .take) : OnTrack head payload body s.take := by
  obtain ⟨hsized, htrack⟩ := h
  have hfits := hsized.body
  simp only [Track, hpc] at htrack
  obtain ⟨c, cs, hchunk, hlen, hmin, hmax, hcut⟩ := htrack
  obtain ⟨hended, hinput, hbody, herror, hcontent, hdone⟩ := hchunk
  have htotal := congrArg List.length hbody
  simp only [List.length_append] at htotal
  obtain ⟨piece, hpiece, hrest⟩ : ∃ piece, c.data ++ crlf = s.data ++ piece ∧ s.input = piece ++ cs.flatMap Chunk.bytes := by
    rcases List.append_eq_append_iff.mp hinput with ⟨piece, hpiece, hrest⟩ | ⟨left, hleft, hrest⟩
    · exact ⟨piece, hpiece, hrest⟩
    · have hnil : left = [] := by
        have hlong := congrArg List.length hleft
        simp only [List.length_append, crlf, List.length_cons, List.length_nil] at hlong
        exact List.eq_nil_of_length_eq_zero (by omega)
      subst hnil
      exact ⟨[], by simpa using hleft.symm, by simpa using hrest.symm⟩
  have hlong := congrArg List.length hpiece
  simp only [List.length_append, crlf, List.length_cons, List.length_nil] at hlong
  unfold RecvResponse.take
  dsimp only
  rw [hcontent]
  by_cases hall : (c.data.length : Int) ≤ s.len
  · -- the chunk and its line end are there
    rw [if_pos hall, if_neg (by omega), Int.toNat_natCast]
    have hnil : piece = [] := List.eq_nil_of_length_eq_zero (by omega)
    subst hnil
    rw [List.append_nil] at hpiece
    have htake : s.data.take c.data.length = c.data := by rw [← hpiece, List.take_left]
    have hzero : s.len - c.data.length = 0 := by omega
    rw [htake, hzero]
    refine nextChunk_track { hsized with } ?_ (by rw [Int.toNat_zero, List.take_zero]) rfl hrest hbody herror
    dsimp only
    rw [hdone]
    rcases ended_cons.mp hended with ⟨hlast, hnone⟩ | ⟨hmore, hended⟩
    · exact Or.inl ⟨decide_eq_true hlast, hnone⟩
    · exact Or.inr ⟨decide_eq_false hmore, hended⟩
  · -- the chunk goes on in the next read
    rw [if_neg hall, if_neg (by omega)]
    have hlen' : s.len.toNat = s.data.length - 2 := by omega
    have htake : s.data.take (s.data.length - 2) = c.data.take (s.data.length - 2) := by
      have hfront := congrArg (List.take (s.data.length - 2)) hpiece
      rw [List.take_append_of_le_length (by omega), List.take_append_of_le_length (by omega)] at hfront
      exact hfront.symm
    have hdrop : piece = c.data.drop (s.data.length - 2) := by rw [← hcut, hpiece, List.drop_left]
    obtain ⟨-, hmore⟩ := (ended_cons.mp hended).resolve_left fun h => by
      have hzero := congrArg List.length h.1
      rw [List.length_nil] at hzero
      omega
    rw [hlen', htake]
    refine ⟨{ hsized with }, piece, cs, hmore, hrest, ?_, ?_, ?_, herror, ?_⟩
    · dsimp only
      rw [hdrop, List.append_assoc s.body, List.take_append_drop, hbody]
    · dsimp only
      omega
    · rintro rfl
      rw [List.length_nil] at hlong
      omega
    · dsimp only
      rw [hdone]
      refine decide_eq_false fun hnil => ?_
      have hzero := congrArg List.length hnil
      rw [List.length_nil] at hzero
      omega

theorem OnTrack.length (h : OnTrack head payload body s) (hpc : s.pc = .length) (hok : Aligned head payload s .run) :
    OnTrack head payload body s.length := by
  obtain ⟨hsized, htrack⟩ := h
  have hfits := hsized.body
  have hmax := hsized.maxSize
  simp only [Track, hpc] at htrack
  obtain ⟨hbody, hoffset, hlength, hempty⟩ := htrack
  simp only [Aligned, hpc] at hok
  have hint : int64 s.parser.getContentLength = body.length := by
    rw [hlength, int64, if_pos (by omega)]
  have htotal := congrArg List.length hbody
  rw [List.length_append] at htotal
  unfold RecvResponse.length
  dsimp only
  rw [hint, hoffset]
  by_cases hpos : (body.length : Int) > 0
  · have hall : (body.length : Int) ≥ s.data.length := by omega
    rw [if_pos hpos, if_neg (by omega)]
    simp only [if_pos hall, Int.toNat_natCast, List.take_length]
    by_cases hleft : (body.length : Int) - s.data.length > 0
    · rw [if_pos hleft]
      have hmore : s.input ≠ [] := by
        intro hnil
        rw [hnil, List.length_nil] at htotal
        omega
      have hlen : (body.length : Int) - s.data.length = s.input.length := by omega
      rw [hlen]
      exact ⟨{ hsized with }, hbody, rfl, hmore, hok.resolve_left hmore⟩
    · rw [if_neg hleft]
      have hnil : s.input = [] := List.eq_nil_of_length_eq_zero (by omega)
      rw [hnil, List.append_nil] at hbody
      exact ⟨{ hsized with }, rfl, hbody⟩
  · rw [if_neg hpos]
    refine ⟨{ hsized with }, rfl, ?_⟩
    rw [hempty]
    exact (List.eq_nil_of_length_eq_zero (by omega)).symm

/-! ### Runs -/

/-- Where a message begins. -/
theorem OnTrack.start {buffSize maxSize : Nat} (hhead : IsHead head) (hlen : head.length ≤ buffSize)
    (hbuff : buffSize < 2 ^ 31) (hbody : body.length ≤ maxSize) (hmax : maxSize < 2 ^ 63) :
    OnTrack head payload body (init buffSize maxSize (head ++ payload)) := by
  have hne : head ≠ [] := by
    rintro rfl
    cases hhead.response
  have hpos : 0 < buffSize := Nat.lt_of_lt_of_le (List.length_pos_iff.mpr hne) hlen
  exact ⟨⟨hpos, hbuff, hbody, hmax⟩, [], head, rfl, hne, rfl, begun_nil head, rfl, rfl⟩

theorem OnTrack.step (h : OnTrack head payload body s) (hhead : IsHead head) (hfin : (whole head).isFinished = true)
    (hframed : Framed head payload body) {a : RecvAct} (hok : Aligned head payload s a) (hs : s.step a = some s') :
    OnTrack head payload body s' := by
  cases a with
  | read count =>
    obtain ⟨hr, rfl, hpc | hpc | hpc | hpc⟩ := step_read hs
    · exact h.headRead hpc hr
    · exact h.chunkRead hpc hr (hok hpc)
    · exact h.leftRead hpc hr
    · exact h.fixRead hpc hr
  | run =>
    rcases step_run hs with ⟨hpc, rfl⟩ | ⟨hpc, rfl⟩ | ⟨hpc, rfl⟩ | ⟨hpc, rfl⟩ | ⟨hpc, rfl⟩
    · exact h.headParse hhead hfin hframed hpc hok
    · exact h.chunkParse hpc hok
    · exact h.trim hpc hok
    · exact h.take hpc
    · exact h.length hpc hok

/-- The steps that can still come: four for every byte, and what the place adds. -/
def remaining (s : RecvResponse) : Nat :=
  4 * s.input.length +
    match s.pc with
    | .chunkParse => 4
    | .headParse | .trim => 3
    | .take | .length => 2
    | .headRead | .chunkRead | .leftRead | .fixRead => 1
    | .returned _ | .fault => 0

theorem remaining_nextChunk : s.nextChunk.remaining ≤ 4 * s.input.length + 1 := by
  unfold nextChunk
  split <;> simp [remaining, finish]

theorem remaining_read {count : Nat} (hr : s.readable count = true)
    (hpc : s.pc = .headRead ∨ s.pc = .chunkRead ∨ s.pc = .leftRead ∨ s.pc = .fixRead) :
    (s.read count).remaining < s.remaining := by
  have hplace : s.remaining = 4 * s.input.length + 1 := by
    rcases hpc with hpc | hpc | hpc | hpc <;> simp [remaining, hpc]
  by_cases hc : count = 0
  · rw [hplace]
    simp [RecvResponse.read, hc, remaining]
  obtain ⟨hinput, -⟩ := readable_le hr hc
  have hdrop : (s.input.drop count).length + count = s.input.length := by
    rw [List.length_drop]
    omega
  rcases hpc with hpc | hpc | hpc | hpc <;> simp only [RecvResponse.read, hpc, if_neg hc]
  · simp only [remaining, hpc]
    omega
  · simp only [remaining, hpc]
    omega
  · split_ifs
    · simp only [remaining, hpc]
      omega
    · simp only [remaining, hpc]
      omega
    · refine Nat.lt_of_le_of_lt remaining_nextChunk ?_
      rw [hplace]
      dsimp only
      omega
  · split_ifs <;> simp only [remaining, finish, hpc] <;> omega

theorem remaining_step {a : RecvAct} (hs : s.step a = some s') : s'.remaining < s.remaining := by
  cases a with
  | read count =>
    obtain ⟨hr, rfl, hpc⟩ := step_read hs
    exact remaining_read hr hpc
  | run =>
    rcases step_run hs with ⟨hpc, rfl⟩ | ⟨hpc, rfl⟩ | ⟨hpc, rfl⟩ | ⟨hpc, rfl⟩ | ⟨hpc, rfl⟩
    · simp only [headParse]
      split_ifs <;> simp [remaining, hpc]
    · simp only [chunkParse]
      split_ifs <;> simp [remaining, hpc]
    · simp [remaining, hpc]
    · simp only [take]
      split_ifs
      · simp [remaining, hpc]
      · refine Nat.lt_of_le_of_lt remaining_nextChunk ?_
        simp [remaining, hpc]
      · simp [remaining, hpc]
      · simp [remaining, hpc]
    · simp only [length]
      split_ifs <;> simp [remaining, finish, hpc]

/-- Every run that meets the condition is finite, goes on until there is a response, and the response has the body. -/
theorem recvResponse_frames {buffSize maxSize : Nat} {as : List RecvAct} (hhead : IsHead head)
    (hfin : (whole head).isFinished = true) (hframed : Framed head payload body) (hlen : head.length ≤ buffSize)
    (hbuff : buffSize < 2 ^ 31) (hbody : body.length ≤ maxSize) (hmax : maxSize < 2 ^ 63)
    (hrun : exec step (Aligned head payload) (init buffSize maxSize (head ++ payload)) as = some s) :
    as.length ≤ 4 * (head ++ payload).length + 1 ∧ Right body s := by
  have hinit : OnTrack head payload body (init buffSize maxSize (head ++ payload)) := .start hhead hlen hbuff hbody hmax
  have htrack := (reach_of_exec hrun).invariant hinit fun _ _ _ h hok hs => h.step hhead hfin hframed hok hs
  refine ⟨?_, htrack.right⟩
  have hbound := exec_length (fun _ _ _ => remaining_step) hrun
  simp only [remaining, init] at hbound ⊢
  omega

def chunkedHead : Bytes := ascii "HTTP/1.1 200 OK\r\nTransfer-Encoding: chunked\r\n\r\n"

theorem chunkedHead_isHead : IsHead chunkedHead :=
  ⟨by decide +kernel, by decide +kernel, by decide +kernel, by decide +kernel⟩

/-- `abc` and the zero chunk. -/
def twoChunks : List Chunk :=
  [⟨ascii "3", ascii "abc", by decide, List.all_eq_true.mp (by decide), by decide⟩,
   ⟨ascii "0", [], by decide, List.all_eq_true.mp (by decide), by decide⟩]

theorem twoChunks_framed : Framed chunkedHead (twoChunks.flatMap Chunk.bytes) (ascii "abc") :=
  @Framed.chunks chunkedHead twoChunks (by decide +kernel) ⟨by decide, rfl⟩

/-- The head in two reads, then each chunk in one. -/
theorem recvResponse_frames_chunks : ∃ s, s.pc = .returned true ∧ Right (ascii "abc") s := by
  let s := (exec step (Aligned chunkedHead (twoChunks.flatMap Chunk.bytes))
    (init 4096 (2 ^ 62) (chunkedHead ++ twoChunks.flatMap Chunk.bytes))
    [.read 19, .run, .read 28, .run, .read 8, .run, .run, .run, .read 5, .run, .run, .run]).get (by decide +kernel)
  refine ⟨s, by decide +kernel, ?_⟩
  exact (recvResponse_frames chunkedHead_isHead (by decide +kernel) twoChunks_framed (by decide +kernel) (by decide)
    (by decide) (by decide) (Option.some_get _).symm).2

/-- The whole message comes with one read: the next read finds nothing, and there is no response. -/
theorem nothing_left : ¬∀ head payload body buffSize maxSize as s, IsHead head → (whole head).isFinished = true →
    Framed head payload body → head.length ≤ buffSize → buffSize < 2 ^ 31 → body.length ≤ maxSize → maxSize < 2 ^ 63 →
    exec step (fun _ _ => True) (init buffSize maxSize (head ++ payload)) as = some s → Right body s := by
  intro h
  let s := (exec step (fun _ _ => True) (init 4096 (2 ^ 62) (chunkedHead ++ twoChunks.flatMap Chunk.bytes))
    [.read 60, .run, .read 0]).get (by decide +kernel)
  have hright := h _ _ _ 4096 (2 ^ 62) _ s chunkedHead_isHead (by decide +kernel) twoChunks_framed (by decide +kernel)
    (by decide) (by decide) (by decide) (Option.some_get _).symm
  have hpc : s.pc = .returned false := by decide +kernel
  exact absurd (hright.response false hpc).1 (by decide)

end RecvResponse
end Http
end MyHttp

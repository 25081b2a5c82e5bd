import MyHttp.Http.ChunkLine
import MyHttp.Lib.Segments
import MyHttp.Lib.Run
import Mathlib.Data.List.TakeWhile

/-! What the parser writes into a response when it reads a chunk header: the size of a chunk with data into the reason
    phrase, and every extension into the headers. -/

namespace MyHttp
namespace Http

open Lib.CString Lib.Machine Lib.Scan Lib.Run

namespace ChunkLine

variable {c : UInt8} {d name value rest : Bytes} {n p : Nat}

/-! ### The states of a chunk header -/

set_option synthInstance.maxSize 512 in
/-- The rows of names and values: tokens are read on, and else only what may stand behind them. -/
theorem token_rows : ∀ c,
    (isToken c = true →
      edge Client.table 4 c = some (5, [.startField]) ∧ edge Client.table 5 c = some (5, []) ∧
      edge Client.table 6 c = some (7, [.mark]) ∧ edge Client.table 7 c = some (7, [])) ∧
    (isToken c = false → next Client.table 4 c = none ∧ next Client.table 6 c = none ∧
      (ends c = false → (c ≠ 61 → next Client.table 5 c = none) ∧ next Client.table 7 c = none)) := by
  refine forall_byte ?_
  decide +kernel

theorem edge_name (c : UInt8) (hc : isToken c = true) :
    edge Client.table 4 c = some (5, [.startField]) ∧ edge Client.table 5 c = some (5, []) := by
  obtain ⟨hfirst, hmore, -, -⟩ := (token_rows c).1 hc
  exact ⟨hfirst, hmore⟩

theorem edge_value (c : UInt8) (hc : isToken c = true) :
    edge Client.table 6 c = some (7, [.mark]) ∧ edge Client.table 7 c = some (7, []) := by
  obtain ⟨-, -, hfirst, hmore⟩ := (token_rows c).1 hc
  exact ⟨hfirst, hmore⟩

theorem next_no_token (c : UInt8) (hc : isToken c = false) :
    next Client.table 4 c = none ∧ next Client.table 6 c = none := by
  obtain ⟨hname, hvalue, -⟩ := (token_rows c).2 hc
  exact ⟨hname, hvalue⟩

theorem next_no_end (c : UInt8) (hc : isToken c = false) (hend : ends c = false) :
    (c ≠ 61 → next Client.table 5 c = none) ∧ next Client.table 7 c = none :=
  ((token_rows c).2 hc).2.2 hend

set_option synthInstance.maxSize 512 in
/-- The rows of the size. -/
theorem digit_rows : ∀ c,
    (isxdigit c = true → edge Client.table 1 c = some (2, [.mark]) ∧ edge Client.table 2 c = some (2, [])) ∧
    (isxdigit c = false → (c ≠ 72 → next Client.table 1 c = none) ∧ (ends c = false → next Client.table 2 c = none)) := by
  refine forall_byte ?_
  decide +kernel

theorem edge_digit (c : UInt8) (hc : isxdigit c = true) :
    edge Client.table 1 c = some (2, [.mark]) ∧ edge Client.table 2 c = some (2, []) :=
  (digit_rows c).1 hc

theorem next_no_digit (c : UInt8) (hc : isxdigit c = false) :
    (c ≠ 72 → next Client.table 1 c = none) ∧ (ends c = false → next Client.table 2 c = none) :=
  (digit_rows c).2 hc

theorem next_lf : ∀ c, (next Client.table 3 c).isSome = true → edge Client.table 3 c = some (120, [.done]) := by
  refine forall_byte ?_
  decide +kernel

/-- Stretches of a chunk header. -/
abbrev Stretch := Segment Client.table (· = .done)

/-- A loop that is entered with its first byte. -/
theorem stretch_run {q q' : Nat} {as : List ClientAction} {k : UInt8 → Bool} (hne : d ≠ [])
    (hd : ∀ c ∈ d, k c = true) (hedge : ∀ c, k c = true →
      edge Client.table q c = some (q', as) ∧ edge Client.table q' c = some (q', []))
    (hs : as.any (· = .done) = false) : Stretch d q q' (as.map (0, ·)) := by
  obtain ⟨c, d, rfl⟩ := List.exists_cons_of_ne_nil hne
  have hloop : Stretch d q' q' [] := .loop fun e he => (hedge e (hd e (List.mem_cons_of_mem c he))).2
  have hcons := Segment.cons (hedge c (hd c List.mem_cons_self)).1 hs hloop
  simpa [shift] using hcons

theorem stretch_name (hne : name ≠ []) (h : ∀ c ∈ name, isToken c = true) : Stretch name 4 5 [(0, .startField)] :=
  stretch_run hne h edge_name rfl

theorem stretch_value (hne : value ≠ []) (h : ∀ c ∈ value, isToken c = true) : Stretch value 6 7 [(0, .mark)] :=
  stretch_run hne h edge_value rfl

theorem stretch_size (hne : d ≠ []) (h : ∀ c ∈ d, isxdigit c = true) : Stretch d 1 2 [(0, .mark)] :=
  stretch_run hne h edge_digit rfl

/-! ### Calls on a response -/

/-- Where the actions act: the bytes `d` stand at position `p` of the buffer. -/
def actIn (buffer : Bytes) (a : ClientAction) (p : Nat) (r : HttpResponseParser) : HttpResponseParser := r.act buffer a p

variable {buffer : Bytes} {r : HttpResponseParser}

/-- The data of the response after the calls of a scan. -/
def dataAfter (buffer : Bytes) (r : HttpResponseParser) (p cs : Nat) (d : Bytes) : HttpResponse :=
  (runCalls (actIn buffer) r (calls Client.table (· = .done) p cs d)).data

theorem dataAfter_blocked {cs : Nat} (h : next Client.table cs c = none) :
    dataAfter buffer r p cs (c :: d) = r.data := by
  simp [dataAfter, calls, h, runCalls]

/-- Behind a stretch the scan goes on with what the stretch has made of the parser. -/
theorem dataAfter_stretch {cs cs' : Nat} {l : List (Nat × ClientAction)} (rest : Bytes)
    (h : Stretch name cs cs' l) :
    dataAfter buffer r p cs (name ++ rest) =
      dataAfter buffer (runCalls (actIn buffer) r (shift p l)) (p + name.length) cs' rest := by
  unfold dataAfter
  rw [calls_append h.through, h.calls, runCalls_append]

/-- Behind the carriage return only the end of the line can come. -/
theorem dataAfter_cr : dataAfter buffer r p 3 d = r.data := by
  cases d with
  | nil => rfl
  | cons c d =>
    rcases hnext : next Client.table 3 c with _ | e
    · exact dataAfter_blocked hnext
    · have hedge := next_lf c (by rw [hnext]; rfl)
      obtain ⟨e', he', heq⟩ := Option.map_eq_some_iff.mp hedge
      obtain ⟨-, hactions⟩ := Prod.mk.inj heq
      simp [dataAfter, calls, he', hactions, runCalls, actIn, HttpResponseParser.act]

/-- What ends a size or an extension runs the same actions whether or not the line ends there. -/
theorem dataAfter_ends {cs : Nat} {l : List ClientAction} (hc : ends c = true)
    (hsemi : edge Client.table cs 59 = some (4, l)) (hcr : edge Client.table cs 13 = some (3, l))
    (hlf : edge Client.table cs 10 = some (120, l ++ [.done])) (hs : l.any (· = .done) = false) :
    dataAfter buffer r p cs (c :: d) =
      if c = 59 then dataAfter buffer (runCalls (actIn buffer) r (l.map (p, ·))) (p + 1) 4 d
      else (runCalls (actIn buffer) r (l.map (p, ·))).data := by
  simp only [ends, Bool.or_eq_true, decide_eq_true_eq] at hc
  rcases hc with (rfl | rfl) | rfl
  · have hstretch : Stretch [59] cs 4 (l.map (0, ·)) := .byte hsemi hs
    have hshift : shift p (l.map ((0 : Nat), ·)) = l.map (p, ·) := by simp [shift]
    rw [if_pos rfl, ← hshift]
    exact dataAfter_stretch d hstretch
  · have hstretch : Stretch [13] cs 3 (l.map (0, ·)) := .byte hcr hs
    have hshift : shift p (l.map ((0 : Nat), ·)) = l.map (p, ·) := by simp [shift]
    rw [if_neg (by decide), ← hshift, ← dataAfter_cr (p := p + 1) (d := d)]
    exact dataAfter_stretch d hstretch
  · obtain ⟨e, he, heq⟩ := Option.map_eq_some_iff.mp hlf
    obtain ⟨-, hactions⟩ := Prod.mk.inj heq
    rw [if_neg (by decide)]
    simp [dataAfter, calls, he, hactions, runCalls_append]
    rfl

/-! ### Extensions -/

/-- The response with some headers set, one after the other. -/
def setFields (r : HttpResponse) (fields : List (Bytes × Bytes)) : HttpResponse :=
  { r with headers := r.headers.setAll fields }

theorem setFields_cons {r : HttpResponse} {x : Bytes × Bytes} {fields : List (Bytes × Bytes)} :
    setFields r (x :: fields) = setFields (setFields r [x]) fields := rfl

/-- The parser writes the name and the value it has the places of. -/
theorem act_writeValue {q : Nat} {front back : Bytes} (hne : name ≠ [])
    (hfield : buffer.drop r.parser.fieldStart = name ++ front) (hlen : r.parser.fieldLen = name.length)
    (hmark : buffer.drop r.parser.mark = value ++ back) (hq : q = r.parser.mark + value.length) :
    (r.act buffer .writeValue q).data = setFields r.data [(name, value)] := by
  have hpos : name.length ≠ 0 := mt List.length_eq_zero_iff.mp hne
  simp only [HttpResponseParser.act, HttpResponseParser.onResponseHttpField, hfield, hlen, if_neg hpos, hmark, hq,
    Nat.add_sub_cancel_left, List.take_left]
  rfl

theorem drop_append {front back : Bytes} (h : buffer.drop p = front ++ back) :
    buffer.drop (p + front.length) = back := by
  rw [← List.drop_drop, h, List.drop_left]

theorem drop_succ (h : buffer.drop p = c :: d) : buffer.drop (p + 1) = d :=
  drop_append (show buffer.drop p = [c] ++ d from h)

theorem of_dropWhile {k : UInt8 → Bool} (h : d.dropWhile k = c :: rest) : k c = false := by
  have hhead := List.head?_dropWhile_not k d
  rw [h] at hhead
  exact hhead

/-- Behind a complete extension the parser goes on with the next one, or with the end of the line. -/
theorem dataAfter_next {cs : Nat} {l : List ClientAction} {x : Bytes × Bytes} (hc : ends c = true)
    (hsemi : edge Client.table cs 59 = some (4, l)) (hcr : edge Client.table cs 13 = some (3, l))
    (hlf : edge Client.table cs 10 = some (120, l ++ [.done])) (hs : l.any (· = .done) = false)
    (hx : (runCalls (actIn buffer) r (l.map (p, ·))).data = setFields r.data [x])
    (hrest : ∀ r', dataAfter buffer r' (p + 1) 4 d = setFields r'.data (extensions n d)) :
    dataAfter buffer r p cs (c :: d) =
      setFields r.data (x :: if (c :: d).head? = some 59 then extensions n (c :: d).tail else []) := by
  rw [dataAfter_ends hc hsemi hcr hlf hs, setFields_cons, ← hx]
  by_cases h59 : c = 59
  · subst h59
    rw [if_pos rfl, hrest, List.head?_cons, if_pos rfl, List.tail_cons]
  · rw [if_neg h59, if_neg (by simpa using h59)]
    rfl

/-- A name without a value. -/
theorem dataAfter_bare {front : Bytes} (hne : name ≠ []) (hc : ends c = true)
    (hfield : buffer.drop r.parser.fieldStart = name ++ front) (hp : p = r.parser.fieldStart + name.length)
    (hrest : ∀ r', dataAfter buffer r' (p + 1) 4 d = setFields r'.data (extensions n d)) :
    dataAfter buffer r p 5 (c :: d) =
      setFields r.data ((name, []) :: if (c :: d).head? = some 59 then extensions n (c :: d).tail else []) := by
  refine dataAfter_next hc (l := [.writeField, .mark, .writeValue]) rfl rfl rfl rfl ?_ hrest
  have hlen : p - r.parser.fieldStart = name.length := by omega
  exact act_writeValue (r := { r with parser := { r.parser with fieldLen := p - r.parser.fieldStart, mark := p } })
    hne hfield hlen (List.nil_append _).symm rfl

/-- A name with a value, behind the equals sign. -/
theorem dataAfter_value {front : Bytes} (hne : name ≠ []) (hd : buffer.drop p = d)
    (hfield : buffer.drop r.parser.fieldStart = name ++ front) (hlen : r.parser.fieldLen = name.length)
    (hrest : ∀ r' p' d', d'.length ≤ d.length → buffer.drop p' = d' →
      dataAfter buffer r' p' 4 d' = setFields r'.data (extensions n d')) :
    dataAfter buffer r p 6 d = setFields r.data
      (if d.takeWhile isToken ≠ [] ∧ (d.dropWhile isToken).head?.any ends then
        (name, d.takeWhile isToken) ::
          if (d.dropWhile isToken).head? = some 59 then extensions n (d.dropWhile isToken).tail else []
      else []) := by
  obtain ⟨value, hvalue⟩ : ∃ value, d.takeWhile isToken = value := ⟨_, rfl⟩
  obtain ⟨rest, hback⟩ : ∃ rest, d.dropWhile isToken = rest := ⟨_, rfl⟩
  have hsplit : d = value ++ rest := by rw [← hvalue, ← hback, List.takeWhile_append_dropWhile]
  rw [hvalue, hback]
  by_cases hempty : value = []
  · rw [if_neg fun h => h.1 hempty, hsplit, hempty, List.nil_append]
    cases rest with
    | nil => rfl
    | cons c rest => exact dataAfter_blocked (next_no_token c (of_dropWhile hback)).2
  · have htoken : ∀ c ∈ value, isToken c = true := fun c hc => by
      rw [← hvalue] at hc
      exact List.mem_takeWhile_imp hc
    rw [hsplit] at hd ⊢
    rw [dataAfter_stretch _ (stretch_value hempty htoken)]
    cases rest with
    | nil =>
      rw [if_neg fun h => by simp at h]
      rfl
    | cons c rest =>
      by_cases hc : ends c = true
      · rw [if_pos ⟨hempty, hc⟩]
        refine dataAfter_next hc (l := [.writeValue]) rfl rfl rfl rfl ?_ fun r' => ?_
        · exact act_writeValue (r := { r with parser := { r.parser with mark := 0 + p } }) hne hfield hlen
            (by rw [Nat.zero_add]; exact hd) (by rw [Nat.zero_add])
        · exact hrest r' _ rest (by simp [hsplit]; omega) (drop_succ (drop_append hd))
      · rw [if_neg fun h => hc h.2]
        exact dataAfter_blocked (next_no_end c (of_dropWhile hback) (Bool.eq_false_iff.mpr hc)).2

theorem dataAfter_name (hne : name ≠ []) (h : ∀ c ∈ name, isToken c = true) : dataAfter buffer r p 4 (name ++ rest) =
    dataAfter buffer { r with parser := { r.parser with fieldStart := p } } (p + name.length) 5 rest := by
  rw [dataAfter_stretch _ (stretch_name hne h), shift, List.map_singleton, Nat.zero_add]
  rfl

theorem dataAfter_equals : dataAfter buffer r p 5 (61 :: d) = dataAfter buffer
    { r with parser := { r.parser with fieldLen := p - r.parser.fieldStart, mark := p } } (p + 1) 6 d := by
  have hedge : edge Client.table 5 61 = some (6, [.writeField, .mark]) := rfl
  obtain ⟨e, he, heq⟩ := Option.map_eq_some_iff.mp hedge
  obtain ⟨htarget, hactions⟩ := Prod.mk.inj heq
  simp [dataAfter, calls, he, htarget, hactions, runCalls, actIn, HttpResponseParser.act]

/-- The extensions behind a semicolon are set one after the other. -/
theorem dataAfter_extensions (hn : d.length ≤ n) (hd : buffer.drop p = d) :
    dataAfter buffer r p 4 d = setFields r.data (extensions n d) := by
  induction n generalizing d p r with
  | zero =>
    obtain rfl : d = [] := List.length_eq_zero_iff.mp (Nat.le_zero.mp hn)
    rfl
  | succ n ih =>
    obtain ⟨name, hname⟩ : ∃ name, d.takeWhile isToken = name := ⟨_, rfl⟩
    obtain ⟨rest, hback⟩ : ∃ rest, d.dropWhile isToken = rest := ⟨_, rfl⟩
    have hsplit : d = name ++ rest := by rw [← hname, ← hback, List.takeWhile_append_dropWhile]
    unfold extensions extension
    dsimp only
    rw [hname, hback]
    by_cases hempty : name = []
    · rw [if_pos hempty, hsplit, hempty, List.nil_append]
      cases rest with
      | nil => rfl
      | cons c rest => exact dataAfter_blocked (next_no_token c (of_dropWhile hback)).1
    · have htoken : ∀ c ∈ name, isToken c = true := fun c hc => by
        rw [← hname] at hc
        exact List.mem_takeWhile_imp hc
      have hlt : rest.length < d.length := by
        rw [hsplit, List.length_append]
        exact Nat.lt_add_of_pos_left (List.length_pos_iff.mpr hempty)
      rw [hsplit] at hd
      rw [if_neg hempty, hsplit, dataAfter_name hempty htoken]
      cases rest with
      | nil => rfl
      | cons c rest =>
        have hc := of_dropWhile hback
        have hrest := drop_append hd
        rw [List.length_cons] at hlt
        by_cases heq : c = 61
        · subst heq
          rw [List.head?_cons, if_pos rfl, List.tail_cons, dataAfter_equals, dataAfter_value hempty (drop_succ hrest) hd
            (Nat.add_sub_cancel_left ..) fun r' p' d' hle hd' => ih (by omega) hd']
          by_cases hcomplete : rest.takeWhile isToken ≠ [] ∧ (rest.dropWhile isToken).head?.any ends = true
          · rw [if_pos hcomplete, if_pos hcomplete]
          · rw [if_neg hcomplete, if_neg hcomplete]
        · rw [List.head?_cons, if_neg (by simpa using heq)]
          by_cases hend : ends c = true
          · rw [if_pos (by simpa using hend), dataAfter_bare hempty hend hd rfl fun r' => ih (by omega) (drop_succ hrest)]
          · rw [if_neg (by simpa using hend)]
            exact dataAfter_blocked ((next_no_end c hc (Bool.eq_false_iff.mpr hend)).1 heq)

/-! ### The line -/

/-- The response with the size of a chunk in its reason phrase, when the chunk has data. -/
def setSize (r : HttpResponse) (d : Bytes) : HttpResponse :=
  { r with reason := if announces d then size d else r.reason }

theorem execute_dataAfter : (r.execute d true).1.data = dataAfter d { r with parser := r.parser.init } 0 1 d := by
  unfold dataAfter
  rw [← exec_store]
  rfl

theorem size_append_tail : size d ++ tail d = d := List.takeWhile_append_dropWhile

/-- The size is written when it is complete. -/
theorem act_chunkSize {q : Nat} (hmark : r.parser.mark = 0) (hq : q = (size d).length) (hne : size d ≠ [])
    (hends : (tail d).head?.any ends = true) : (r.act d .chunkSize q).data = setSize r.data d := by
  have htake : d.take (size d).length = size d := by
    nth_rewrite 2 [← size_append_tail (d := d)]
    exact List.take_left
  simp only [HttpResponseParser.act, hmark, List.drop_zero, hq, Nat.sub_zero]
  unfold setSize
  by_cases hpos : 0 < int32 (strtol d 16)
  · rw [if_neg (Int.not_le.mpr hpos), if_pos (show announces d from ⟨hne, hends, hpos⟩)]
    simp only [HttpResponseParser.onResponseChunk, htake]
  · rw [if_pos (Int.not_lt.mp hpos), if_neg fun ha : announces d => hpos ha.2.2]

/-- What the parser makes of a response when it reads a chunk header. -/
theorem execute_data (h : d.head? ≠ some 72) :
    (r.execute d true).1.data = setFields (setSize r.data d) (fields d) := by
  rw [execute_dataAfter]
  have hsplit := size_append_tail (d := d)
  obtain ⟨rest, htail⟩ : ∃ rest, tail d = rest := ⟨_, rfl⟩
  by_cases hempty : size d = []
  · have hsize : setSize r.data d = r.data := by
      unfold setSize
      rw [if_neg fun ha => ha.1 hempty]
    have hfields : fields d = [] := if_neg fun hf => hf.1 hempty
    rw [hsize, hfields]
    rw [hempty, List.nil_append, htail] at hsplit
    cases rest with
    | nil =>
      rw [← hsplit]
      rfl
    | cons c rest =>
      have hc : c ≠ 72 := fun he => h (by rw [← hsplit, he]; rfl)
      have hblocked := (next_no_digit c (of_dropWhile htail)).1 hc
      nth_rewrite 2 [← hsplit]
      exact dataAfter_blocked hblocked
  · have hdigits : ∀ c ∈ size d, isxdigit c = true := fun c hc => List.mem_takeWhile_imp hc
    have hline : dataAfter d { r with parser := r.parser.init } 0 1 (size d ++ rest) = _ :=
      dataAfter_stretch rest (stretch_size hempty hdigits)
    rw [htail] at hsplit
    rw [hsplit, Nat.zero_add] at hline
    rw [hline]
    obtain ⟨r', hr', hdata, hmark⟩ : ∃ r', runCalls (actIn d) { r with parser := r.parser.init }
        (shift 0 [(0, .mark)]) = r' ∧ r'.data = r.data ∧ r'.parser.mark = 0 := ⟨_, rfl, rfl, rfl⟩
    rw [hr', ← hdata]
    have hcomplete : ∀ c rest', rest = c :: rest' → ((tail d).head?.any ends = true ↔ ends c = true) := by
      rintro c rest' rfl
      rw [htail]
      rfl
    cases rest with
    | nil =>
      have hsize : setSize r'.data d = r'.data := by
        unfold setSize
        rw [if_neg fun ha => by have hend := ha.2.1; rw [htail] at hend; cases hend]
      have hfields : fields d = [] := if_neg fun hf => by have hsemi := hf.2; rw [htail] at hsemi; cases hsemi
      rw [hsize, hfields]
      rfl
    | cons c rest =>
      have hends := hcomplete c rest rfl
      by_cases hc : ends c = true
      · have hwrite := act_chunkSize hmark rfl hempty (hends.mpr hc)
        rw [dataAfter_ends hc (l := [.chunkSize]) rfl rfl rfl rfl]
        unfold fields
        by_cases h59 : c = 59
        · subst h59
          have hlen : rest.length ≤ d.length := by
            rw [← hsplit, List.length_append, List.length_cons]
            omega
          have hdrop : d.drop ((size d).length + 1) = rest := by
            have hback := drop_append (p := 0) (show d.drop 0 = size d ++ 59 :: rest from hsplit.symm)
            rw [Nat.zero_add] at hback
            exact drop_succ hback
          rw [if_pos rfl, if_pos ⟨hempty, by rw [htail]; rfl⟩, dataAfter_extensions hlen hdrop, htail, ← hwrite]
          rfl
        · rw [if_neg h59, if_neg fun hf => h59 (by have hsemi := hf.2; rw [htail] at hsemi; exact Option.some.inj hsemi)]
          exact hwrite
      · have hsize : setSize r'.data d = r'.data := by
          unfold setSize
          rw [if_neg fun ha => hc (hends.mp ha.2.1)]
        have hfields : fields d = [] := if_neg fun hf => by
          have hsemi := hf.2
          rw [htail] at hsemi
          obtain rfl := Option.some.inj hsemi
          exact hc rfl
        rw [hsize, hfields]
        exact dataAfter_blocked ((next_no_digit c (of_dropWhile htail)).2 (Bool.eq_false_iff.mpr hc))

end ChunkLine

namespace RecvResponse

variable {s t : RecvResponse}

/-- The chunk header is the only thing that writes into the response. -/
theorem head_chunkParse : s.chunkParse.head = (s.parser.execute s.data true).1.data.head := by
  unfold chunkParse
  dsimp only
  split_ifs <;> rfl

/-- The head is kept by a chunk header exactly when the header writes into it what is there. -/
theorem chunkParse_head (h : s.data.head? ≠ some 72) : s.chunkParse.head = s.head ↔
    (ChunkLine.announces s.data → ChunkLine.size s.data = s.parser.data.reason) ∧
      s.parser.data.headers.setAll (ChunkLine.fields s.data) = s.parser.data.headers := by
  rw [head_chunkParse, ChunkLine.execute_data h]
  simp only [head, HttpResponse.head, ChunkLine.setFields, ChunkLine.setSize, ResponseHead.mk.injEq, true_and,
    ite_eq_right_iff]

theorem nextChunk_head : s.nextChunk.head = s.head := by
  unfold nextChunk
  split_ifs <;> rfl

theorem take_head : s.take.head = s.head := by
  unfold RecvResponse.take
  dsimp only
  split_ifs
  · rfl
  · exact nextChunk_head
  · rfl
  · rfl

theorem read_head (count : Nat) : (s.read count).head = s.head := by
  unfold RecvResponse.read
  dsimp only
  by_cases hc : count = 0
  · rw [if_pos hc]
    rfl
  · rw [if_neg hc]
    split
    · rfl
    · rfl
    · split_ifs
      · rfl
      · rfl
      · exact nextChunk_head
    · split_ifs <;> rfl

/-- The places of `recvResponse` behind the head of a chunked response. -/
def inChunks : RecvPc → Bool
  | .chunkRead | .chunkParse | .trim | .take | .leftRead | .returned _ | .fault => true
  | _ => false

theorem nextChunk_inChunks : inChunks s.nextChunk.pc = true := by
  unfold nextChunk
  split_ifs <;> rfl

theorem inChunks_step {a : RecvAct} (h : inChunks s.pc = true) (hs : s.step a = some t) : inChunks t.pc = true := by
  cases a with
  | read count =>
    obtain ⟨-, rfl, hpc⟩ := step_read hs
    unfold RecvResponse.read
    dsimp only
    rcases hpc with hpc | hpc | hpc | hpc <;> rw [hpc] at h ⊢
    · cases h
    · dsimp only
      split_ifs <;> rfl
    · dsimp only
      split_ifs
      · rfl
      · rfl
      · rfl
      · exact nextChunk_inChunks
    · cases h
  | run =>
    rcases step_run hs with ⟨hpc, rfl⟩ | ⟨hpc, rfl⟩ | ⟨hpc, rfl⟩ | ⟨hpc, rfl⟩ | ⟨hpc, rfl⟩
    · rw [hpc] at h
      cases h
    · unfold chunkParse
      dsimp only
      split_ifs <;> rfl
    · rfl
    · unfold RecvResponse.take
      dsimp only
      split_ifs
      · rfl
      · exact nextChunk_inChunks
      · rfl
      · rfl
    · rw [hpc] at h
      cases h

/-- Behind the head only a chunk header can change what it said. -/
theorem head_step {a : RecvAct} (h : inChunks s.pc = true) (hok : s.LeavesHead a) (hs : s.step a = some t) :
    t.head = s.head := by
  cases a with
  | read count =>
    obtain ⟨-, rfl, -⟩ := step_read hs
    exact read_head count
  | run =>
    rcases step_run hs with ⟨hpc, rfl⟩ | ⟨hpc, rfl⟩ | ⟨hpc, rfl⟩ | ⟨hpc, rfl⟩ | ⟨hpc, rfl⟩
    · rw [hpc] at h
      cases h
    · obtain ⟨h72, hwrites⟩ := hok hpc
      exact (chunkParse_head h72).mpr hwrites
    · rfl
    · exact take_head
    · rw [hpc] at h
      cases h

/-- A head with a chunked body, and nothing else. -/
def bareChunked : Bytes := ascii "HTTP/1.1 200 OK\r\ntransfer-encoding: chunked\r\n\r\n"

/-- The receiver that has read the head, before a body. -/
def behindHead (body : Bytes) : Option RecvResponse :=
  exec step (fun _ _ => True) (init 64 1000 (bareChunked ++ body)) [.read 47, .run]

end RecvResponse
end Http
end MyHttp

import MyHttp.Http.Framing
import MyHttp.Lib.Readers
import MyHttp.Theorems.Http.ResponseText
import MyHttp.Theorems.Http.RoundTrip
import MyHttp.Theorems.Http.ResponseFraming

/-! What `dump` writes for a response, received by `recvResponse`: the same response again, whatever the sizes of the reads
    that bring the body. -/

namespace MyHttp
namespace Http

open Lib.CString Lib.Machine Lib.Scan Lib.Lines Lib.Run

namespace HttpResponseParser

open Client

variable {B name value : Bytes} {p k n q q' : Nat} {d : HttpResponse} {close : Bool} {as : List ClientAction}

/-! ### What the actions write -/

/-- No callback has failed, the response has no chunks, it is `d.1` so far, and whether the connection closes is `d.2`. -/
structure Holds (r : HttpResponseParser) (d : HttpResponse × Bool) : Prop where
  data : r.data = d.1
  close : r.parser.close = d.2
  error : r.error = 0
  chunked : r.parser.chunked = false

def actOn (B : Bytes) (a : ClientAction) (p : Nat) (r : HttpResponseParser) : HttpResponseParser := r.act B a p

abbrev Writes (B : Bytes) (l : List (Nat × ClientAction)) (d d' : HttpResponse × Bool) : Prop :=
  Lib.Scan.Writes actOn Holds B l d d'

abbrev Reads (xs : Bytes) (q q' : Nat) (d d' : HttpResponse × Bool) : Prop :=
  Lib.Scan.Reads table (· = .done) actOn Holds xs q q' d d'

theorem writes_version {version : Nat} (hversion : version = 0x10 ∨ version = 0x11)
    (h : (B.drop p).take 8 = ascii "HTTP/" ++ decimalText (version / 16) ++ ascii "." ++ decimalText (version % 16))
    (hn : n = p + 8) : Writes B [(p, .mark), (n, .httpVersion)] (d, close) ({ d with version }, close) := by
  subst hn
  intro r hr
  have hlength : p + 8 - p = 8 := Nat.add_sub_cancel_left p 8
  have hset : ∀ r : HttpResponseParser, r.onResponseVersion (B.drop p) 8 = { r with data := { r.data with version } } := by
    intro r
    rw [onResponseVersion, ← strncmpEq_take, h, ← strncmpEq_take (t := ascii "HTTP/1.0"), h]
    rcases hversion with rfl | rfl
    · have hno : strncmpEq (ascii "HTTP/" ++ decimalText (0x10 / 16) ++ ascii "." ++ decimalText (0x10 % 16))
          (ascii "HTTP/1.1") 8 = false := by decide +kernel
      have hyes : strncmpEq (ascii "HTTP/" ++ decimalText (0x10 / 16) ++ ascii "." ++ decimalText (0x10 % 16))
          (ascii "HTTP/1.0") 8 = true := by decide +kernel
      rw [hno, hyes, if_neg Bool.false_ne_true, if_pos rfl]
    · have hyes : strncmpEq (ascii "HTTP/" ++ decimalText (0x11 / 16) ++ ascii "." ++ decimalText (0x11 % 16))
          (ascii "HTTP/1.1") 8 = true := by decide +kernel
      rw [hyes, if_pos rfl]
  simp only [runCalls, List.foldl_cons, List.foldl_nil, actOn, act, hlength, hset]
  exact { hr with data := by rw [hr.data] }

/-- A status in 32 bits comes back as the `int` it was. -/
theorem int32_status {status : Int} (h : -2 ^ 31 ≤ status ∧ status < 2 ^ 31) :
    int32 (min (2 ^ 63 - 1) ((status % 2 ^ 32).toNat : Int)) = status := by
  have hnat : ((status % 2 ^ 32).toNat : Int) = status % 2 ^ 32 := Int.toNat_of_nonneg (Int.emod_nonneg _ (by decide))
  have hsmall : min (2 ^ 63 - 1) (status % 2 ^ 32) = status % 2 ^ 32 := by omega
  rw [hnat, hsmall, int32_iff]
  omega

theorem writes_status {status : Int} {rest : Bytes} (hstatus : -2 ^ 31 ≤ status ∧ status < 2 ^ 31)
    (h : B.drop p = decimalText (status % 2 ^ 32).toNat ++ 32 :: rest) :
    Writes B [(p, .mark), (n, .statusCode)] (d, close) ({ d with status }, close) := by
  intro r hr
  have hvalue : int32 (strtol (B.drop p) 10) = status := by
    have hblank : ((32 :: rest).headD 0).toNat < 48 := (by decide : (32 : UInt8).toNat < 48)
    rw [h, strtol_decimal decimalText_ne_nil (fun c hc => digits_of_decimalText hc) (Or.inl hblank), digits_decimalText,
      int32_status hstatus]
  simp only [runCalls, List.foldl_cons, List.foldl_nil, actOn, act, onResponseStatus, hvalue]
  exact { hr with data := by rw [hr.data] }

theorem writes_reason {reason : Bytes} (h : (B.drop p).take reason.length = reason) (hn : n = p + reason.length) :
    Writes B [(p, .mark), (n, .reasonPhrase)] (d, close) ({ d with reason }, close) := by
  subst hn
  intro r hr
  have hlength : p + reason.length - p = reason.length := Nat.add_sub_cancel_left p _
  simp only [runCalls, List.foldl_cons, List.foldl_nil, actOn, act, onResponseReason, hlength, h]
  exact { hr with data := by rw [hr.data] }

/-- The first action of a line: it may find that the line before it closes the connection. -/
def Opens (as : List ClientAction) (close close' : Bool) : Prop :=
  (as = [.startField] ∧ close' = close) ∨ (as = [.writeConnectionClose, .startField] ∧ close' = true)

theorem opens_line {close' : Bool} {r : HttpResponseParser} (hopens : Opens as close close') (hr : Holds r (d, close)) :
    Holds (runCalls (actOn B) r (as.map (p, ·))) (d, close') ∧
      (runCalls (actOn B) r (as.map (p, ·))).parser.fieldStart = p := by
  rcases hopens with ⟨rfl, rfl⟩ | ⟨rfl, rfl⟩
  · exact ⟨{ hr with }, rfl⟩
  · exact ⟨⟨hr.data, rfl, hr.error, hr.chunked⟩, rfl⟩

/-- A header line. That its value is also a content-length changes nothing that is kept. -/
theorem writes_field {close' : Bool} {more : List ClientAction} (hopens : Opens as close close')
    (hmore : more = [.writeValue] ∨ more = [.writeContentLen, .writeValue]) (hne : name ≠ [])
    (hname : (B.drop p).take name.length = name) (hvalue : (B.drop (p + name.length + 2)).take value.length = value) :
    Writes B (shift p (fieldCalls as name value more)) (d, close) ({ d with headers := d.headers.set name value }, close') := by
  intro r hr
  have hcount : name.length ≠ 0 := fun h => hne (List.eq_nil_of_length_eq_zero h)
  have hlength : name.length + p - p = name.length := Nat.add_sub_cancel _ p
  have hplace : name.length + 2 + p = p + name.length + 2 := by omega
  have hrest : name.length + 2 + value.length + p - (p + name.length + 2) = value.length := by omega
  have hfirst : shift p (as.map ((0, ·) : ClientAction → Nat × ClientAction)) = as.map (p, ·) := by simp [shift]
  rw [fieldCalls, List.append_assoc, shift_append, hfirst, runCalls_append]
  obtain ⟨hholds, hstart⟩ : Holds (runCalls (actOn B) r (as.map (p, ·))) (d, close') ∧ _ := opens_line hopens hr
  rcases hmore with rfl | rfl
  all_goals
    simp only [runCalls, shift, List.map_cons, List.map_nil, List.foldl_cons, List.foldl_nil, List.cons_append,
      List.nil_append, actOn, act, onResponseHttpField] at hholds hstart ⊢
    simp only [hstart, hlength, hplace, hrest, hcount, if_false, hname, hvalue]
    exact { hholds with data := by rw [hholds.data] }

/-! ### The parts of a head -/

theorem reads_version {version : Nat} (h : version = 0x10 ∨ version = 0x11) :
    Reads (ascii "HTTP/" ++ decimalText (version / 16) ++ ascii "." ++ decimalText (version % 16) ++ [32]) 1 16 (d, close)
      ({ d with version }, close) := by
  obtain ⟨digit, hdigit, htext⟩ : ∃ digit : UInt8, (digit = 48 ∨ digit = 49) ∧
      ascii "HTTP/" ++ decimalText (version / 16) ++ ascii "." ++ decimalText (version % 16) =
        [72, 84, 84, 80, 47, 49, 46, digit] := by
    rcases h with rfl | rfl
    · exact ⟨48, by decide +kernel⟩
    · exact ⟨49, by decide +kernel⟩
  have hstretch := stretch_version hdigit
  rw [htext]
  refine ⟨_, hstretch, fun u v => ?_⟩
  refine writes_version h ?_ (by simp [Nat.add_comm])
  rw [htext]
  exact drop_take_of_eq (w := [72, 84, 84, 80, 47, 49, 46, digit]) (a := []) (b := [32]) rfl rfl

theorem reads_status {status : Int} (h : -2 ^ 31 ≤ status ∧ status < 2 ^ 31) :
    Reads (decimalText (status % 2 ^ 32).toNat ++ [32]) 16 18 (d, close) ({ d with status }, close) := by
  refine ⟨_, stretch_status decimalText_ne_nil (fun c hc => digits_of_decimalText hc), fun u v => ?_⟩
  refine writes_status h (?_ : _ = _ ++ 32 :: v)
  rw [Nat.zero_add, List.append_assoc, List.drop_left, List.append_assoc]
  rfl

theorem reads_reason {reason : Bytes} (hne : reason ≠ []) (h : IsLine reason) :
    Reads (reason ++ lineEnd) 18 20 (d, close) ({ d with reason }, close) := by
  refine ⟨_, stretch_reason hne h, fun u v => writes_reason ?_ ?_⟩
  · exact drop_take_of_eq (a := []) (b := lineEnd) rfl (by simp)
  · simp [Nat.add_comm]

/-- A line that the machine runs through as a header line is read as one. -/
theorem reads_line {close' : Bool} {more : List ClientAction} (hopens : Opens as close close')
    (hmore : more = [.writeValue] ∨ more = [.writeContentLen, .writeValue]) (hne : name ≠ [])
    (h : Stretch (fieldLine name value) q q' (fieldCalls as name value more)) :
    Reads (fieldLine name value) q q' (d, close) ({ d with headers := d.headers.set name value }, close') := by
  refine ⟨_, h, fun u v => writes_field hopens hmore hne ?_ ?_⟩
  · exact drop_take_of_eq (a := []) (b := [58] ++ ([32] ++ (value ++ lineEnd))) (by simp [fieldLine]) (by simp)
  · exact drop_take_of_eq (a := name ++ [58, 32]) (b := lineEnd) (by simp [fieldLine]) (by simp; omega)

theorem opens_afterConnection (close : Bool) :
    Opens ((afterConnection close).2 ++ [.startField]) false close := by
  cases close
  · exact .inl ⟨rfl, rfl⟩
  · exact .inr ⟨rfl, rfl⟩

/-- The carriage return of the blank line, right behind the connection line or behind another one. -/
theorem reads_blank (close : Bool) : Reads [13] (afterConnection close).1 3 (d, false) (d, close) := by
  cases close
  · have hedge : edge table 20 13 = some (3, []) := by decide
    exact ⟨_, .byte hedge rfl, fun u v r hr => hr⟩
  · have hedge : edge table 43 13 = some (3, [.writeConnectionClose]) := by decide
    exact ⟨_, .byte hedge rfl, fun u v r hr => ⟨hr.data, rfl, hr.error, hr.chunked⟩⟩

theorem reads_blank_other : Reads [13] 20 3 (d, close) (d, close) := by
  have hedge : edge table 20 13 = some (3, []) := by decide
  exact ⟨_, .byte hedge rfl, fun u v r hr => hr⟩

end HttpResponseParser

/-! ### The text of a response -/

namespace HttpResponse

open HttpResponseParser Client

/-- What a servlet may put into a response. The header map has no two equivalent names, and the body fits what a read
    can return. -/
structure Legal (r : HttpResponse) : Prop where
  version : r.version = 0x10 ∨ r.version = 0x11
  status : -2 ^ 31 ≤ r.status ∧ r.status < 2 ^ 31
  reason : IsLine r.reason
  names : ∀ h ∈ r.headers, IsToken h.1 ∧ ∀ x ∈ special, strcaseEquiv h.1 x = false
  values : ∀ h ∈ r.headers, IsLine h.2 ∧ ∀ c ∈ h.2.head?, leadingBlank c = false
  keys : r.headers.Pairwise fun x y => strcaseEquiv x.1 y.1 = false
  length : r.body.length < 2 ^ 31

def reasonText (r : HttpResponse) : Bytes := if r.reason = [] then httpStatusToString r.status else r.reason

/-- The headers of a response with those that `dump` adds. -/
def sentHeaders (r : HttpResponse) : Headers :=
  r.headers ++ (ascii "connection", ascii (if r.close then "close" else "keep-alive")) ::
    if r.body = [] then [] else [(ascii "content-length", decimalText r.body.length)]

/-- What the parser makes of the head. -/
def parsed (r : HttpResponse) : HttpResponse :=
  { HttpResponse.new with
    version := r.version, status := r.status, reason := r.reasonText
    headers := r.sentHeaders.foldl (fun m x => m.set x.1 x.2) [] }

/-- The head without its last two bytes. -/
def headText (r : HttpResponse) : Bytes :=
  (ascii "HTTP/" ++ decimalText (r.version / 16) ++ ascii "." ++ decimalText (r.version % 16) ++ [32]) ++
    (decimalText (r.status % 2 ^ 32).toNat ++ [32]) ++ (r.reasonText ++ lineEnd) ++
    r.headers.flatMap (fun h => fieldLine h.1 h.2) ++
    fieldLine (ascii "connection") (ascii (if r.close then "close" else "keep-alive")) ++
    if r.body = [] then [] else fieldLine (ascii "content-length") (decimalText r.body.length)

def headBytes (r : HttpResponse) : Bytes := r.headText ++ lineEnd

variable {r : HttpResponse}

theorem dump_head (h : Legal r) : r.dump = r.headBytes ++ r.body := by
  have htexts : ascii " " = [32] ∧ ascii ": " = [58, 32] ∧ ascii "\r\n" = lineEnd ∧ ascii "\r\n\r\n" = lineEnd ++ lineEnd ∧
      ascii "content-length: " = ascii "content-length" ++ [58, 32] := by decide
  obtain ⟨hblank, hcolon, hend, htwo, hlength⟩ := htexts
  have hheaders : r.headers.filter (fun h => !strcaseEquiv h.1 (ascii "connection")) = r.headers := by
    rw [List.filter_eq_self]
    intro x hx
    rw [(h.names x hx).2 _ List.mem_cons_self]
    rfl
  rw [dump, headerLines, hheaders, hblank, hcolon, hend, htwo, hlength, headBytes, headText, reasonText]
  by_cases hnil : r.body = [] <;> simp [hnil, fieldLine]

theorem reasonText_line (h : Legal r) : r.reasonText ≠ [] ∧ IsLine r.reasonText := by
  rw [reasonText]
  split
  · refine ⟨fun hnil => ?_, isLine_statusString _⟩
    have hall : ∀ x ∈ statusMap, ascii x.2 ≠ [] := by decide +kernel
    rw [httpStatusToString] at hnil
    cases hlookup : statusMap.lookup r.status with
    | none =>
      rw [hlookup] at hnil
      exact absurd hnil (by decide)
    | some text =>
      obtain ⟨front, back, hmap, -⟩ := List.lookup_eq_some_iff.mp hlookup
      rw [hlookup] at hnil
      exact hall (r.status, text) (by rw [hmap]; simp) hnil
  · exact ⟨by assumption, h.reason⟩

theorem reads_headers {l : Headers} {d : HttpResponse} (hnames : ∀ h ∈ l, IsToken h.1 ∧ ∀ x ∈ special, strcaseEquiv h.1 x = false)
    (hvalues : ∀ h ∈ l, IsLine h.2 ∧ ∀ c ∈ h.2.head?, leadingBlank c = false) :
    HttpResponseParser.Reads (l.flatMap fun h => fieldLine h.1 h.2) 20 20 (d, false)
      ({ d with headers := l.foldl (fun m x => m.set x.1 x.2) d.headers }, false) := by
  induction l generalizing d with
  | nil => exact .nil
  | cons x l ih =>
    obtain ⟨hname, hother⟩ := hnames x List.mem_cons_self
    obtain ⟨hline, hfirst⟩ := hvalues x List.mem_cons_self
    have hstart : (20, [ClientAction.startField]) ∈ starts := by decide
    have hone : HttpResponseParser.Reads (fieldLine x.1 x.2) 20 20 (d, false) _ :=
      reads_line (.inl ⟨rfl, rfl⟩) (.inl rfl) hname.1 (stretch_field hstart hname hother hline hfirst)
    exact hone.append (ih (fun y hy => hnames y (List.mem_cons_of_mem x hy)) fun y hy => hvalues y (List.mem_cons_of_mem x hy))

/-- The machine reads the head up to the last line feed. -/
theorem reads_headText (h : Legal r) :
    HttpResponseParser.Reads (r.headText ++ [13]) 1 3 (.new, false) (r.parsed, r.close) := by
  obtain ⟨hne, hline⟩ := reasonText_line h
  have hnew : HttpResponse.new.headers = [] := rfl
  have hstart : HttpResponseParser.Reads _ 1 20 (.new, false) _ :=
    ((reads_version h.version).append (reads_status h.status)).append (reads_reason hne hline)
  have hconnection : HttpResponseParser.Reads _ 1 (afterConnection r.close).1 (.new, false) _ :=
    (hstart.append (reads_headers h.names h.values)).append
      (reads_line (.inl ⟨rfl, rfl⟩) (.inl rfl) (by decide) (stretch_connection r.close))
  by_cases hnil : r.body = []
  · have hall := hconnection.append (reads_blank r.close)
    simpa [headText, parsed, sentHeaders, hnil, hnew] using hall
  · have hlength := stretch_length r.close decimalText_ne_nil fun c (hc : c ∈ decimalText r.body.length) => digits_of_decimalText hc
    have hall := (hconnection.append
      (reads_line (opens_afterConnection r.close) (.inr rfl) (by decide) hlength)).append reads_blank_other
    simpa [headText, parsed, sentHeaders, hnil, hnew] using hall

/-- The parser behind the head, with whatever has come after it. -/
structure Read (r : HttpResponse) (parser : HttpResponseParser) : Prop where
  data : parser.data = r.parsed
  close : parser.parser.close = r.close
  fine : parser.hasError = false ∧ parser.parser.chunked = false
  finished : parser.isFinished = true

/-- A fresh parser on some bytes. -/
theorem execute_new (B : Bytes) {x : Scanned HttpResponseParser}
    (hx : exec table (· = .done) (actOn B) 0 1 HttpResponseParser.new B = x) :
    HttpResponseParser.new.execute B false =
      ({ x.store with parser := { x.store.parser with cs := x.cs, nread := x.pos } }, x.pos) := by
  subst hx
  rfl

theorem execute_head (h : Legal r) (rest : Bytes) :
    Read r (HttpResponseParser.new.execute (r.headBytes ++ rest) false).1 ∧
      (HttpResponseParser.new.execute (r.headBytes ++ rest) false).2 = r.headBytes.length := by
  have hedge : edge table 3 10 = some (120, [.done]) := by decide
  have hlast : ∀ B p, HttpResponseParser.Writes B [(p, .done)] (r.parsed, r.close) (r.parsed, r.close) :=
    fun B p r hr => { hr with }
  have hfresh : Holds .new (.new, false) := ⟨rfl, rfl, rfl, rfl⟩
  have hbytes : r.headBytes ++ rest = (r.headText ++ [13]) ++ 10 :: rest := by simp [headBytes, lineEnd]
  have hstop := (reads_headText h).stop hedge rfl hlast hfresh rest
  rw [← hbytes] at hstop
  generalize hx : exec table (· = .done) (actOn (r.headBytes ++ rest)) 0 1 HttpResponseParser.new (r.headBytes ++ rest) = x at hstop
  obtain ⟨hholds, hcs, hpos⟩ := hstop
  rw [execute_new _ hx]
  refine ⟨⟨hholds.data, hholds.close, ⟨?_, hholds.chunked⟩, ?_⟩, ?_⟩
  · simp [HttpResponseParser.hasError, hholds.error, hcs]
  · simp [HttpResponseParser.isFinished, hcs]
  · simp [hpos, headBytes, lineEnd]

theorem headers_parsed (h : Legal r) : r.parsed.headers.Perm r.sentHeaders := by
  have hadded : strcaseEquiv (ascii "connection") (ascii "content-length") = false := by decide
  have hlast : ∀ x ∈ (if r.body = [] then [] else [(ascii "content-length", decimalText r.body.length)]),
      x.1 = ascii "content-length" := by
    intro x hx
    split at hx
    · cases hx
    · rw [List.mem_singleton.mp hx]
  have hpairs : r.sentHeaders.Pairwise fun x y => strcaseEquiv x.1 y.1 = false := by
    refine List.pairwise_append.mpr ⟨h.keys, List.pairwise_cons.mpr ⟨fun y hy => ?_, ?_⟩, fun x hx y hy => ?_⟩
    · rw [hlast y hy]
      exact hadded
    · split
      · exact .nil
      · exact List.pairwise_singleton _ _
    · have hother := (h.names x hx).2
      rcases List.mem_cons.mp hy with rfl | hy
      · exact hother (ascii "connection") (by decide)
      · rw [hlast y hy]
        exact hother (ascii "content-length") (by decide)
  have hperm := Headers.foldl_set_perm (m := []) hpairs fun x hx => absurd hx List.not_mem_nil
  rwa [List.append_nil] at hperm

/-- The length that `recvResponse` reads from the headers. -/
theorem contentLength_parsed (h : Legal r) : getHeaderAs r.parsed.headers (ascii "content-length") = r.body.length := by
  have hothers : ∀ x ∈ r.headers ++ [(ascii "connection", ascii (if r.close then "close" else "keep-alive"))],
      strcaseEquiv x.1 (ascii "content-length") = false := by
    intro x hx
    rcases List.mem_append.mp hx with hx | hx
    · exact (h.names x hx).2 _ (by decide)
    · rw [List.mem_singleton.mp hx]
      exact (by decide : strcaseEquiv (ascii "connection") (ascii "content-length") = false)
  have hself : strcaseEquiv (ascii "content-length") (ascii "content-length") = true := by decide
  have hsplit : r.sentHeaders = (r.headers ++ [(ascii "connection", ascii (if r.close then "close" else "keep-alive"))]) ++
      if r.body = [] then [] else [(ascii "content-length", decimalText r.body.length)] := by simp [sentHeaders]
  have hlength : r.body.length < 2 ^ 64 := Nat.lt_trans h.length (by decide)
  rw [getHeaderAs, parsed, hsplit, List.foldl_append]
  by_cases hnil : r.body = []
  · rw [if_pos hnil, List.foldl_nil, Headers.get_foldl_set hothers, hnil]
    rfl
  · rw [if_neg hnil, List.foldl_cons, List.foldl_nil, Headers.get_set, hself, if_pos rfl, Option.bind_some,
      lexicalCast_decimalText hlength, Option.getD_some]

/-! ### The run that receives it -/

/-- What the caller of `recvResponse` finds. The close flag of a response is not set, that of the parser is. -/
structure Received (r : HttpResponse) (parser : HttpResponseParser) : Prop where
  data : parser.data.version = r.version ∧ parser.data.status = r.status ∧ parser.data.reason = r.reasonText ∧
    parser.data.body = r.body
  headers : parser.data.headers.Perm r.sentHeaders
  close : parser.parser.close = r.close

/-- The first read brings the head; the body comes in pieces of any size. -/
def BringsHead (r : HttpResponse) (s : RecvResponse) : RecvAct → Prop
  | .read count => s.pc = .headRead → r.headBytes.length ≤ count
  | .run => True

instance (r : HttpResponse) (s : RecvResponse) (a : RecvAct) : Decidable (BringsHead r s a) := by
  induction a using RecvAct.casesOn with
  | read count => exact inferInstanceAs (Decidable (_ → _))
  | run => exact .isTrue trivial

/-- What of the message stands where. -/
def Track (r : HttpResponse) (s : RecvResponse) : Prop :=
  match s.pc with
  | .headRead => s = .init s.buffSize s.maxSize (r.headBytes ++ r.body)
  | .headParse =>
    ∃ rest, s.data = r.headBytes ++ rest ∧ rest ++ s.input = r.body ∧ s.len = s.data.length ∧ s.data.length ≤ s.buffSize ∧
      s.parser = .new
  | .length => Read r s.parser ∧ s.data ++ s.input = r.body ∧ s.offset = s.data.length
  | .fixRead =>
    Read r s.parser ∧ s.body ++ s.input = r.body ∧ s.left = s.input.length ∧ s.input ≠ [] ∧ 0 < int32 s.fixSize
  | .returned response => response = true ∧ Received r s.parser
  | _ => False

structure OnTrack (r : HttpResponse) (s : RecvResponse) : Prop where
  buffer : r.headBytes.length ≤ s.buffSize ∧ s.buffSize < 2 ^ 31
  size : r.body.length ≤ s.maxSize
  track : Track r s

variable {s t : RecvResponse}

theorem head_length_pos (r : HttpResponse) : 0 < r.headBytes.length := by
  rw [headBytes, List.length_append]
  exact Nat.add_pos_right _ (by decide)

theorem Read.received (h : Legal r) {parser : HttpResponseParser} (hread : Read r parser) :
    Received r { parser with data := { parser.data with body := r.body } } := by
  refine ⟨?_, ?_, hread.close⟩
  · rw [hread.data]
    exact ⟨rfl, rfl, rfl, rfl⟩
  · rw [hread.data]
    exact headers_parsed h

theorem OnTrack.headRead (h : OnTrack r s) (hpc : s.pc = .headRead) {count : Nat} (hr : s.readable count = true)
    (hok : r.headBytes.length ≤ count) : OnTrack r (s.read count) := by
  obtain ⟨⟨hlow, hhigh⟩, hsize, htrack⟩ := h
  simp only [Track, hpc] at htrack
  have hpos := head_length_pos r
  have hinput : s.input = r.headBytes ++ r.body := by rw [htrack]; rfl
  have hempty : s.data = [] ∧ s.offset = 0 ∧ s.parser = .new := by rw [htrack]; exact ⟨rfl, rfl, rfl⟩
  obtain ⟨hdata, hoffset, hparser⟩ := hempty
  have hasked : s.asked = s.buffSize := by simp [RecvResponse.asked, hpc, hoffset]
  have hlength : s.input.length = r.headBytes.length + r.body.length := by rw [hinput, List.length_append]
  obtain ⟨hcount, hle, hfits⟩ := RecvResponse.read_some hr (List.ne_nil_of_length_pos (by omega)) (by omega)
  rw [hasked] at hfits
  have hhead : r.headBytes.take count = r.headBytes := List.take_of_length_le hok
  have hlen : int32 ((count : Int) + 0) = count := int32_eq (by omega) (by omega)
  simp only [RecvResponse.read, hpc, if_neg (Nat.ne_of_gt hcount), hdata, hoffset, hlen]
  refine ⟨⟨hlow, hhigh⟩, hsize, r.body.take (count - r.headBytes.length), ?_, ?_, ?_, ?_, hparser⟩
  · simp [hinput, List.take_append, hhead]
  · simp only [hinput]
    rw [List.drop_append, List.drop_eq_nil_of_le hok, List.nil_append, List.take_append_drop]
  · simp only [List.take_nil, List.nil_append, List.length_take]
    omega
  · simp only [List.take_nil, List.nil_append, List.length_take]
    omega

theorem OnTrack.headParse (hlegal : Legal r) (h : OnTrack r s) (hpc : s.pc = .headParse) : OnTrack r s.headParse := by
  obtain ⟨⟨hlow, hhigh⟩, hsize, htrack⟩ := h
  simp only [Track, hpc] at htrack
  obtain ⟨rest, hdata, hbody, hlen, hfits, hparser⟩ := htrack
  have hpos := head_length_pos r
  have htotal : s.data.length = r.headBytes.length + rest.length := by rw [hdata, List.length_append]
  obtain ⟨hread, hcount⟩ := execute_head hlegal rest
  have hstart : (HttpResponseParser.new.execute s.data false).1.parser.bodyStart ≤ s.data.length :=
    run_bodyStart_le (Nat.zero_le _)
  have hnear : ¬((HttpResponseParser.new.execute s.data false).1.parser.bodyStart : Int) > s.len := by omega
  have hbuff : int32 s.buffSize = s.buffSize := int32_eq (by omega) (by omega)
  have hoffset : ¬(s.len - (r.headBytes.length : Int) = int32 s.buffSize) := by omega
  simp only [RecvResponse.headParse, hparser]
  rw [if_neg hnear, hdata]
  simp only [hcount, hread.fine.1, hread.fine.2, hread.finished, if_neg hoffset, Bool.false_eq_true, if_false, if_true,
    List.drop_left]
  refine ⟨⟨hlow, hhigh⟩, hsize, hread, hbody, ?_⟩
  dsimp only
  omega

theorem OnTrack.length (hlegal : Legal r) (h : OnTrack r s) (hpc : s.pc = .length) : OnTrack r s.length := by
  obtain ⟨hbuffer, hsize, htrack⟩ := h
  simp only [Track, hpc] at htrack
  obtain ⟨hread, hbody, hoffset⟩ := htrack
  have hfits := hlegal.length
  have hint : int64 s.parser.getContentLength = r.body.length := by
    rw [HttpResponseParser.getContentLength, hread.data, contentLength_parsed hlegal, int64, if_pos (by omega)]
  have htotal : s.data.length + s.input.length = r.body.length := by rw [← List.length_append, hbody]
  simp only [RecvResponse.length, hint, hoffset]
  by_cases hpos : (r.body.length : Int) > 0
  · have hall : (r.body.length : Int) ≥ s.data.length := by omega
    rw [if_pos hpos, if_neg (by omega)]
    simp only [if_pos hall, Int.toNat_natCast, List.take_length]
    by_cases hleft : (r.body.length : Int) - s.data.length > 0
    · have hmore : s.input ≠ [] := List.ne_nil_of_length_pos (by omega)
      have hfix : int32 ((r.body.length : Int) - s.data.length) = r.body.length - s.data.length :=
        int32_eq (by omega) (by omega)
      rw [if_pos hleft]
      exact ⟨hbuffer, hsize, hread, hbody, by dsimp only; omega, hmore, by dsimp only; omega⟩
    · have hnil : s.input = [] := List.eq_nil_of_length_eq_zero (by omega)
      rw [hnil, List.append_nil] at hbody
      rw [if_neg hleft, hbody]
      exact ⟨hbuffer, hsize, rfl, hread.received hlegal⟩
  · have hnil : r.body = [] := List.eq_nil_of_length_eq_zero (by omega)
    have hempty : s.parser.data.body = r.body := by rw [hread.data, hnil]; rfl
    have hsame : { s.parser with data := { s.parser.data with body := r.body } } = s.parser := by rw [← hempty]
    rw [if_neg hpos]
    exact ⟨hbuffer, hsize, rfl, hsame ▸ hread.received hlegal⟩

theorem OnTrack.fixRead (hlegal : Legal r) (h : OnTrack r s) (hpc : s.pc = .fixRead) {count : Nat}
    (hr : s.readable count = true) : OnTrack r (s.read count) := by
  obtain ⟨hbuffer, hsize, htrack⟩ := h
  simp only [Track, hpc] at htrack
  obtain ⟨hread, hbody, hleft, hmore, hfix⟩ := htrack
  have hlen : 0 < s.input.length := List.length_pos_iff.mpr hmore
  have hasked : s.asked = s.left := by simp [RecvResponse.asked, hpc]
  obtain ⟨hcount, hle, hfits⟩ := RecvResponse.read_some hr hmore (by omega)
  rw [hasked, hleft] at hfits
  have hall : s.body ++ s.input.take count ++ s.input.drop count = r.body := by
    rw [List.append_assoc, List.take_append_drop, hbody]
  simp only [RecvResponse.read, hpc, if_neg (Nat.ne_of_gt hcount), hleft]
  by_cases hrest : (s.input.length : Int) - count > 0
  · have hdrop : s.input.drop count ≠ [] := List.ne_nil_of_length_pos (by rw [List.length_drop]; omega)
    rw [if_pos hrest]
    refine ⟨hbuffer, hsize, hread, hall, ?_, hdrop, hfix⟩
    dsimp only
    rw [List.length_drop]
    omega
  · have hnil : s.input.drop count = [] := List.drop_eq_nil_of_le (by omega)
    rw [hnil, List.append_nil] at hall
    rw [if_neg hrest, if_neg (by omega), hall]
    exact ⟨hbuffer, hsize, rfl, hread.received hlegal⟩

theorem OnTrack.step (hlegal : Legal r) (h : OnTrack r s) {a : RecvAct} (hok : BringsHead r s a) (hs : s.step a = some t) :
    OnTrack r t := by
  have htrack := h.track
  cases a with
  | read count =>
    obtain ⟨hr, rfl, hpc | hpc | hpc | hpc⟩ := RecvResponse.step_read hs
    · exact h.headRead hpc hr (hok hpc)
    · simp [Track, hpc] at htrack
    · simp [Track, hpc] at htrack
    · exact h.fixRead hlegal hpc hr
  | run =>
    rcases RecvResponse.step_run hs with ⟨hpc, rfl⟩ | ⟨hpc, rfl⟩ | ⟨hpc, rfl⟩ | ⟨hpc, rfl⟩ | ⟨hpc, rfl⟩
    · exact h.headParse hlegal hpc
    · simp [Track, hpc] at htrack
    · simp [Track, hpc] at htrack
    · simp [Track, hpc] at htrack
    · exact h.length hlegal hpc

/-- Where there is no response yet, the call can go on. -/
theorem OnTrack.goesOn (h : OnTrack r s) (hpc : ∀ response, s.pc ≠ .returned response) :
    ∃ a t, BringsHead r s a ∧ s.step a = some t := by
  obtain ⟨⟨hlow, -⟩, -, htrack⟩ := h
  have hpos := head_length_pos r
  cases hplace : s.pc with
  | headRead =>
    simp only [Track, hplace] at htrack
    have hinput : s.input = r.headBytes ++ r.body := by rw [htrack]; rfl
    have hoffset : s.offset = 0 := by rw [htrack]; rfl
    have hread : s.readable r.headBytes.length = true := by
      have hasked : s.asked = s.buffSize := by simp [RecvResponse.asked, hplace, hoffset]
      have hnone : ¬(s.input = [] ∨ s.asked = 0) := by
        rw [not_or, hinput, hasked]
        exact ⟨List.ne_nil_of_length_pos (by rw [List.length_append]; omega), by omega⟩
      rw [RecvResponse.readable, if_neg hnone, hasked, hinput, List.length_append]
      simp only [Bool.and_eq_true, decide_eq_true_eq]
      omega
    exact ⟨.read r.headBytes.length, _, fun _ => Nat.le_refl _, by rw [RecvResponse.step, hplace, hread]; rfl⟩
  | headParse => exact ⟨.run, _, trivial, by rw [RecvResponse.step, hplace]⟩
  | length => exact ⟨.run, _, trivial, by rw [RecvResponse.step, hplace]⟩
  | fixRead =>
    simp only [Track, hplace] at htrack
    have hasked : 0 ≤ s.asked := by simp [RecvResponse.asked, hplace, htrack.2.2.1]
    obtain ⟨count, hcount⟩ := RecvResponse.readable_exists hasked
    have hfree : BringsHead r s (.read count) := fun h => by
      rw [hplace] at h
      cases h
    exact ⟨.read count, _, hfree, by rw [RecvResponse.step, hplace, hcount]; rfl⟩
  | returned response => exact absurd hplace (hpc response)
  | chunkRead | chunkParse | trim | take | leftRead | fault => simp [Track, hplace] at htrack

theorem onTrack_of_run (h : Legal r) {buffSize maxSize : Nat} {as : List RecvAct} (hlow : r.headBytes.length ≤ buffSize)
    (hhigh : buffSize < 2 ^ 31) (hsize : r.body.length ≤ maxSize)
    (hrun : exec RecvResponse.step (BringsHead r) (.init buffSize maxSize r.dump) as = some s) : OnTrack r s := by
  have hstart : OnTrack r (.init buffSize maxSize r.dump) := by
    refine ⟨⟨hlow, hhigh⟩, hsize, ?_⟩
    rw [dump_head h]
    rfl
  exact (reach_of_exec hrun).invariant hstart fun _ _ _ htrack hok hs => htrack.step h hok hs

theorem OnTrack.returned (h : OnTrack r s) (response : Bool) (hpc : s.pc = .returned response) :
    response = true ∧ Received r s.parser := by
  have htrack := h.track
  simp only [Track, hpc] at htrack
  exact htrack

/-- A response that is written, and received with reads of which the first brings the head: every run is finite, goes on
    until it returns, and then it returns the response. -/
theorem response_roundTrips (h : Legal r) {buffSize maxSize : Nat} {as : List RecvAct} (hlow : r.headBytes.length ≤ buffSize)
    (hhigh : buffSize < 2 ^ 31) (hsize : r.body.length ≤ maxSize)
    (hrun : exec RecvResponse.step (BringsHead r) (.init buffSize maxSize r.dump) as = some s) :
    as.length ≤ 4 * r.dump.length + 1 ∧ (∀ response, s.pc = .returned response → response = true ∧ Received r s.parser) ∧
      ((∀ response, s.pc ≠ .returned response) → ∃ a t, BringsHead r s a ∧ s.step a = some t) := by
  have htrack := onTrack_of_run h hlow hhigh hsize hrun
  refine ⟨?_, htrack.returned, htrack.goesOn⟩
  have hbound := exec_length (fun _ _ _ => RecvResponse.remaining_step) hrun
  simp only [RecvResponse.remaining, RecvResponse.init] at hbound
  omega

/-- A status that is not in the map, two headers and a body. -/
def pageResponse : HttpResponse :=
  { HttpResponse.new with
    status := -1, headers := [(ascii "Content-Type", ascii "text/html"), (ascii "Set", [])], body := ascii "page" }

/-- The head with one byte of the body, then the rest of it. -/
theorem response_roundTrips_page : ∃ s : RecvResponse, s.pc = .returned true ∧ Received pageResponse s.parser := by
  let s := (exec RecvResponse.step (BringsHead pageResponse) (.init 4096 65536 pageResponse.dump)
    [.read (pageResponse.headBytes.length + 1), .run, .run, .read 2, .read 1]).get (by decide +kernel)
  have hlegal : Legal pageResponse :=
    ⟨by decide, by decide, by decide, by decide +kernel, by decide +kernel, by decide, by decide⟩
  have hpc : s.pc = .returned true := by decide +kernel
  refine ⟨s, hpc, ?_⟩
  exact ((response_roundTrips hlegal (by decide +kernel) (by decide) (by decide) (Option.some_get _).symm).2.1 true hpc).2

end HttpResponse
end Http
end MyHttp

import MyHttp.Theorems.Http.RequestText
import MyHttp.Theorems.Http.Serializers

/-! What `dump` writes for a request, given back to a fresh parser. The text is put together from stretches that the
    machine runs through; each of them writes one part of the parsed request. -/

namespace MyHttp
namespace Http

open Lib.CString Lib.Scan Lib.Lines

/-! ### Numbers and the header map -/

/-- A number that is written and read again. -/
theorem lexicalCast_decimalText {n : Nat} (h : n < 2 ^ 64) : lexicalCast (decimalText n) = some n := by
  have hall : ((decimalText n).all fun c => 48 ≤ c && c ≤ 57) = true := by
    rw [List.all_eq_true]
    intro c hc
    simp only [UInt8.le_iff_toNat_le, UInt8.reduceToNat, Bool.and_eq_true, decide_eq_true_eq]
    exact digits_of_decimalText hc
  have hdecimal : decimal (decimalText n) = some n := by
    rw [decimal, digits_decimalText, if_pos ⟨decimalText_ne_nil, hall, h⟩]
  have hsign : ∀ c s, decimalText n = c :: s → c ≠ 45 ∧ c ≠ 43 := by
    intro c s heq
    obtain ⟨hlow, -⟩ := digits_of_decimalText (n := n) (heq ▸ List.mem_cons_self)
    constructor
    · rintro rfl
      exact absurd hlow (by decide)
    · rintro rfl
      exact absurd hlow (by decide)
  unfold lexicalCast
  split
  · rename_i s heq
    exact absurd rfl (hsign _ _ heq).1
  · rename_i s heq
    exact absurd rfl (hsign _ _ heq).2
  · exact hdecimal

namespace Headers

variable {m : Headers} {l : List (Bytes × Bytes)} {key val : Bytes}

/-- An entry of a new name. -/
theorem set_perm (h : ∀ x ∈ m, strcaseEquiv x.1 key = false) : (m.set key val).Perm ((key, val) :: m) := by
  induction m with
  | nil => exact List.Perm.refl _
  | cons x m ih =>
    obtain ⟨k, v⟩ := x
    have hne := h (k, v) List.mem_cons_self
    by_cases hbefore : strcaseLess key k = true
    · simp only [set, hbefore, if_true]
      exact List.Perm.refl _
    · have hafter : strcaseLess k key = true := by
        by_contra hafter
        simp [strcaseEquiv, hbefore, hafter] at hne
      simp only [set, hbefore, hafter, if_true]
      exact ((ih fun y hy => h y (List.mem_cons_of_mem _ hy)).cons _).trans (List.Perm.swap _ _ _)

/-- Entries of names that are all different. -/
theorem foldl_set_perm (h : l.Pairwise fun x y => strcaseEquiv x.1 y.1 = false)
    (hm : ∀ x ∈ m, ∀ y ∈ l, strcaseEquiv x.1 y.1 = false) : (l.foldl (fun m x => m.set x.1 x.2) m).Perm (l ++ m) := by
  induction l generalizing m with
  | nil => exact List.Perm.refl _
  | cons x l ih =>
    obtain ⟨hx, hl⟩ := List.pairwise_cons.mp h
    have hset : (m.set x.1 x.2).Perm (x :: m) := set_perm fun y hy => hm y hy x List.mem_cons_self
    refine (ih hl fun y hy z hz => ?_).trans ?_
    · rcases List.mem_cons.mp (hset.mem_iff.mp hy) with rfl | hy
      · exact hx z hz
      · exact hm y hy z (List.mem_cons_of_mem x hz)
    · exact (hset.append_left l).trans List.perm_middle

theorem get_foldl_set (h : ∀ x ∈ l, strcaseEquiv x.1 key = false) :
    Headers.get (l.foldl (fun m x => m.set x.1 x.2) m) key = m.get key := by
  induction l generalizing m with
  | nil => rfl
  | cons x l ih =>
    rw [List.foldl_cons, ih fun y hy => h y (List.mem_cons_of_mem x hy), get_set, h x List.mem_cons_self]
    rfl

end Headers

/-! ### What the actions write -/

namespace HttpRequestParser

variable {relaxed : Bool} {B w u v : Bytes} {r : HttpRequestParser} {d d' d'' : HttpRequest} {p k n : Nat}
  {l l' : List (Nat × RequestAction)}

/-- No callback has failed, and the parsed request is `d` so far. -/
structure Holds (r : HttpRequestParser) (d : HttpRequest) : Prop where
  data : r.data = d
  error : r.error = 0
  thrown : r.thrown = false
  xml : r.parser.xmlSent = false
  json : r.parser.jsonSent = false

/-- Actions on the bytes `B` that make of the parsed request `d` the request `d'`. -/
def Writes (B : Bytes) (l : List (Nat × RequestAction)) (d d' : HttpRequest) : Prop :=
  ∀ r, Holds r d → Holds (runCalls (fun a p r => act r B a p) r l) d'

theorem Writes.append (h : Writes B l d d') (h' : Writes B l' d' d'') : Writes B (l ++ l') d d'' := by
  intro r hr
  rw [runCalls_append]
  exact h' _ (h r hr)

theorem writes_nil : Writes B [] d d := fun _ hr => hr

theorem writes_uri : Writes B [(p, .requestUri)] d d := fun _ hr => hr

theorem writes_done : Writes B [(p, .done)] d d := by
  intro r hr
  simp only [runCalls, List.foldl_cons, List.foldl_nil, act, hr.xml, hr.json, Bool.or_false, Bool.false_eq_true, if_false]
  exact ⟨hr.data, hr.error, hr.thrown, rfl, rfl⟩

theorem writes_method {m : HttpMethod} (h : charsToHttpMethod (B.drop p) = some m) :
    Writes B [(p, .mark), (n, .requestMethod)] d { d with method := m } := by
  intro r hr
  simp only [runCalls, List.foldl_cons, List.foldl_nil, act, onRequestMethod, h]
  exact { hr with data := by rw [hr.data] }

theorem writes_path (h : (B.drop p).take k = w) (hn : n = p + k) :
    Writes B [(p, .mark), (n, .requestPath)] d { d with path := w } := by
  intro r hr
  simp only [runCalls, List.foldl_cons, List.foldl_nil, act, onRequestPath, hn, Nat.add_sub_cancel_left, h]
  exact { hr with data := by rw [hr.data] }

theorem writes_fragment (h : (B.drop p).take k = w) (hn : n = p + k) :
    Writes B [(p, .mark), (n, .fragment)] d { d with fragment := w } := by
  intro r hr
  simp only [runCalls, List.foldl_cons, List.foldl_nil, act, onRequestFragment, hn, Nat.add_sub_cancel_left, h]
  exact { hr with data := by rw [hr.data] }

theorem writes_query (h : (B.drop p).take k = w) (hn : n = p + k) :
    Writes B [(p, .startQuery), (n, .queryString)] d { d with query := w } := by
  intro r hr
  have hlength : (n : Int) - p = k := by omega
  have hnonneg : ¬(k : Int) < 0 := by omega
  simp only [runCalls, List.foldl_cons, List.foldl_nil, act, onRequestQuery, hlength, hnonneg, if_false, Int.toNat_natCast, h]
  exact { hr with data := by rw [hr.data] }

theorem writes_version {version : Nat} (h : chars2Version (B.drop p) k = some version) (hn : n = p + k) :
    Writes B [(p, .mark), (n, .httpVersion)] d { d with version } := by
  intro r hr
  simp only [runCalls, List.foldl_cons, List.foldl_nil, act, onRequestVersion, hn, Nat.add_sub_cancel_left, h]
  exact { hr with data := by rw [hr.data] }

theorem writes_field {name value : Bytes} {blank : Bool} (hne : name ≠ []) (hname : (B.drop p).take name.length = name)
    (hvalue : (B.drop (name.length + 1 + blank.toNat + p)).take value.length = value) :
    Writes B (shift p (Http11.fieldCalls name blank value)) d { d with headers := d.headers.set name value } := by
  intro r hr
  have hcount : name.length ≠ 0 := fun h => hne (List.eq_nil_of_length_eq_zero h)
  have hlength : ∀ k, k + value.length + p - (k + p) = value.length := fun k => by omega
  cases blank with
  | false =>
    simp only [Bool.toNat_false, Nat.add_zero] at hvalue
    simp only [Http11.fieldCalls, shift, runCalls, List.map_cons, List.map_nil, List.foldl_cons, List.foldl_nil,
      List.nil_append, List.cons_append, act, onRequestHttpField, Nat.zero_add, Nat.add_sub_cancel, hcount, if_false, hname, hvalue,
      Bool.toNat_false, Nat.add_zero, hlength, Bool.false_eq_true]
    exact { hr with data := by rw [hr.data] }
  | true =>
    simp only [Bool.toNat_true] at hvalue
    simp only [Http11.fieldCalls, shift, runCalls, List.map_cons, List.map_nil, List.foldl_cons, List.foldl_nil,
      List.nil_append, List.cons_append, act, onRequestHttpField, Nat.zero_add, Nat.add_sub_cancel, hcount, if_false, if_true, hname,
      hvalue, Bool.toNat_true, hlength]
    exact { hr with data := by rw [hr.data] }

/-- Bytes that the machine runs through, wherever they stand, and what they make of the parsed request. -/
def Reads (relaxed : Bool) (xs : Bytes) (q q' : Nat) (d d' : HttpRequest) : Prop :=
  ∃ l, Http11.Stretch relaxed xs q q' l ∧ ∀ u v, Writes (u ++ xs ++ v) (shift u.length l) d d'

variable {xs ys : Bytes} {q q' q'' : Nat}

theorem Reads.append (h : Reads relaxed xs q q' d d') (h' : Reads relaxed ys q' q'' d' d'') :
    Reads relaxed (xs ++ ys) q q'' d d'' := by
  obtain ⟨l, hl, hwrites⟩ := h
  obtain ⟨l', hl', hwrites'⟩ := h'
  refine ⟨_, hl.append hl', fun u v => ?_⟩
  have hfirst := hwrites u (ys ++ v)
  have hsecond := hwrites' (u ++ xs) v
  rw [shift_append, shift_shift, Nat.add_comm xs.length, ← List.length_append]
  simp only [List.append_assoc] at hfirst hsecond ⊢
  exact hfirst.append hsecond

/-- A part of the bytes. -/
theorem slice {a b : Bytes} (h : xs = a ++ (w ++ b)) (hp : p = a.length + u.length) :
    ((u ++ xs ++ v).drop p).take w.length = w := by
  subst h hp
  have hdrop : u ++ (a ++ (w ++ b)) ++ v = (u ++ a) ++ (w ++ (b ++ v)) := by simp only [List.append_assoc]
  rw [hdrop, Nat.add_comm, ← List.length_append, List.drop_left, List.take_left]

theorem reads_method (relaxed : Bool) {x : HttpMethod × String} (hx : x ∈ methodMap) (hne : x.1 ≠ .msearch) :
    Reads relaxed (ascii x.2 ++ [32]) 1 3 d { d with method := x.1 } := by
  have hmethods : ∀ x ∈ methodMap, charsToHttpMethod (ascii x.2 ++ 32 :: []) = some x.1 := by decide +kernel
  refine ⟨_, Http11.stretch_method relaxed hx hne, fun u v => writes_method ?_⟩
  have hdrop : u ++ (ascii x.2 ++ [32]) ++ v = u ++ (ascii x.2 ++ 32 :: v) := by simp
  rw [hdrop, Nat.zero_add, List.drop_left, charsToHttpMethod_blank, hmethods x hx]

theorem reads_version {version : Nat} (h : version = 0x10 ∨ version = 0x11) :
    Reads relaxed (ascii "HTTP/" ++ decimalText (version / 16) ++ ascii "." ++ decimalText (version % 16) ++ lineEnd) 4 13 d
      { d with version } := by
  obtain ⟨digit, hdigit, htext, hvalue⟩ : ∃ digit : UInt8, (digit = 48 ∨ digit = 49) ∧
      ascii "HTTP/" ++ decimalText (version / 16) ++ ascii "." ++ decimalText (version % 16) ++ lineEnd =
        [72, 84, 84, 80, 47, 49, 46, digit, 13, 10] ∧
      chars2Version [72, 84, 84, 80, 47, 49, 46, digit] 8 = some version := by
    rcases h with rfl | rfl
    · exact ⟨48, by decide +kernel⟩
    · exact ⟨49, by decide +kernel⟩
  rw [htext]
  refine ⟨_, Http11.stretch_version hdigit, fun u v => writes_version (k := 8) ?_ (by simp [Nat.add_comm])⟩
  have hslice : ((u ++ [72, 84, 84, 80, 47, 49, 46, digit, 13, 10] ++ v).drop (0 + u.length)).take 8 =
      [72, 84, 84, 80, 47, 49, 46, digit] :=
    slice (w := [72, 84, 84, 80, 47, 49, 46, digit]) (a := []) (b := [13, 10]) rfl rfl
  rw [← hvalue, ← hslice, chars2Version, chars2Version, strncmpEq_take, strncmpEq_take]

theorem reads_uri {path query fragment : Bytes} (hpath : AbsolutePath path) (hquery : UriText queryText query)
    (hfragment : UriText queryText fragment) (hd : d.query = []) (hd' : d.fragment = []) :
    Reads relaxed (Http11.uriText path query fragment) 3 4 d { d with path, query, fragment } := by
  refine ⟨_, Http11.stretch_uri hpath hquery hfragment, fun u v => ?_⟩
  obtain ⟨method, version, close, path', query', fragment', body, headers⟩ := d
  obtain rfl : query' = [] := hd
  obtain rfl : fragment' = [] := hd'
  rw [Http11.uriCalls, shift_append, shift_append, shift_append]
  have hpathWrites : Writes (u ++ Http11.uriText path query fragment ++ v)
      (shift u.length [(0, .mark), (path.length, .requestPath)]) ⟨method, version, close, path', [], [], body, headers⟩
      ⟨method, version, close, path, [], [], body, headers⟩ := by
    refine writes_path (k := path.length) ?_ ?_
    · exact slice (a := []) (List.append_assoc ..) rfl
    · simp [Nat.add_comm]
  have hqueryWrites : Writes (u ++ Http11.uriText path query fragment ++ v) (shift u.length (if query = [] then [] else
      [(path.length + 1, .startQuery), (path.length + (if query = [] then 0 else query.length + 1), .queryString)]))
      ⟨method, version, close, path, [], [], body, headers⟩ ⟨method, version, close, path, query, [], body, headers⟩ := by
    split
    · rename_i hnil
      rw [hnil]
      exact writes_nil
    · rename_i hne
      refine writes_query (k := query.length) ?_ ?_
      · refine slice (a := path ++ [63]) (b := (if fragment = [] then [] else [35]) ++ fragment ++ [32]) ?_ ?_
        · simp [Http11.uriText, hne]
        · simp
      · simp
        omega
  refine Writes.append (Writes.append (Writes.append hpathWrites hqueryWrites) writes_uri) ?_
  split
  · rename_i hnil
    rw [hnil]
    exact writes_nil
  · rename_i hne
    refine writes_fragment (k := fragment.length) ?_ ?_
    · refine slice (a := path ++ (if query = [] then [] else 63 :: query) ++ [35]) (b := [32]) ?_ ?_
      · simp [Http11.uriText, hne]
      · split <;> simp [Nat.add_assoc]
    · simp
      omega

theorem reads_field {name value : Bytes} (blank : Bool) (hname : IsToken name) (hchars : ∀ c ∈ value, valueText c = true)
    (hfirst : ∀ c ∈ value.head?, isblank c = false) :
    Reads relaxed (Http11.fieldLine name blank value) 13 13 d { d with headers := d.headers.set name value } := by
  refine ⟨_, Http11.stretch_field blank hname hchars hfirst, fun u v => writes_field hname.1 ?_ ?_⟩
  · exact slice (a := []) rfl (Nat.zero_add _).symm
  · refine slice (a := name ++ 58 :: if blank then [32] else []) (b := [13, 10]) ?_ ?_
    · simp [Http11.fieldLine]
    · cases blank <;> simp

/-- A header line that is written: whether a blank stands in front of the value, the name and the value. -/
abbrev Field := Bool × Bytes × Bytes

def fieldText (l : List Field) : Bytes := l.flatMap fun x => Http11.fieldLine x.2.1 x.1 x.2.2

/-- Names are tokens; values have no CR, LF or leading blank. -/
def Writable (l : List Field) : Prop :=
  ∀ x ∈ l, IsToken x.2.1 ∧ IsLine x.2.2 ∧ ∀ c ∈ x.2.2.head?, isblank c = false

theorem reads_fields {l : List Field} (hl : Writable l) (hchars : ∀ x ∈ l, ∀ c ∈ x.2.2, valueText c = true) :
    Reads relaxed (fieldText l) 13 13 d { d with headers := (l.map (·.2)).foldl (fun m x => m.set x.1 x.2) d.headers } := by
  induction l generalizing d with
  | nil => exact ⟨[], .nil, fun u v => writes_nil⟩
  | cons x l ih =>
    obtain ⟨hname, -, hfirst⟩ := hl x List.mem_cons_self
    exact (reads_field x.1 hname (hchars x List.mem_cons_self) hfirst).append
      (ih (fun y hy => hl y (List.mem_cons_of_mem x hy)) fun y hy => hchars y (List.mem_cons_of_mem x hy))

/-- A value with a byte that the machine does not take stops it, in the first line that has one. -/
theorem fields_blocked {l : List Field} (hl : Writable l) (h : ¬∀ x ∈ l, ∀ c ∈ x.2.2, valueText c = true) :
    Blocked (Http11.table relaxed) (· = .done) 13 (fieldText l) := by
  induction l with
  | nil => exact absurd (fun x hx => absurd hx List.not_mem_nil) h
  | cons x l ih =>
    obtain ⟨hname, hline, hfirst⟩ := hl x List.mem_cons_self
    have hl' : Writable l := fun y hy => hl y (List.mem_cons_of_mem x hy)
    by_cases hchars : ∀ c ∈ x.2.2, valueText c = true
    · have hrest : ¬∀ y ∈ l, ∀ c ∈ y.2.2, valueText c = true := by
        intro hall
        refine h fun y hy => ?_
        rcases List.mem_cons.mp hy with rfl | hy
        · exact hchars
        · exact hall y hy
      exact (Http11.stretch_field x.1 hname hchars hfirst).blocked (ih hl' hrest)
    · have hstart : Http11.Stretch relaxed (x.2.1 ++ [58] ++ if x.1 then [32] else []) 13 15 _ :=
        (Http11.stretch_name hname).append (Http11.stretch_blank x.1)
      have hfield := (hstart.blocked (Http11.value_blocked hline hfirst hchars)).append ([13, 10] ++ fieldText l)
      simpa [fieldText, Http11.fieldLine] using hfield

/-- Behind the blank line the parser is at its end, with the request that was written. -/
theorem execute_of_reads {uriRelaxed : Bool} (h : Reads uriRelaxed xs 1 13 .new d) (body : Bytes) :
    Holds ((new uriRelaxed).execute (xs ++ lineEnd ++ body)).1 d ∧
      ((new uriRelaxed).execute (xs ++ lineEnd ++ body)).1.parser.cs = 348 ∧
      ((new uriRelaxed).execute (xs ++ lineEnd ++ body)).2 = (xs ++ lineEnd).length := by
  have hcr : Reads uriRelaxed [13] 13 18 d d := by
    have hedge : edge (Http11.table uriRelaxed) 13 13 = some (18, [.startField]) := by cases uriRelaxed <;> decide
    exact ⟨_, .byte hedge rfl, fun u v r hr => { hr with }⟩
  obtain ⟨l, hl, hwrites⟩ := h.append hcr
  obtain ⟨e, hnext, htarget, hactions⟩ : ∃ e, next (Http11.table uriRelaxed) 18 10 = some e ∧ e.target = 348 ∧
      e.actions = [.done] := by cases uriRelaxed <;> exact ⟨_, rfl, rfl, rfl⟩
  have hstops : e.actions.any (· = .done) = true := by rw [hactions]; rfl
  have hbytes : xs ++ lineEnd ++ body = (xs ++ [13]) ++ 10 :: body := by simp [lineEnd]
  rw [hbytes]
  have hend : ∀ act : RequestAction → Nat → HttpRequestParser → HttpRequestParser,
      (exec (Http11.table uriRelaxed) (· = .done) act 0 1 (new uriRelaxed).cleared ((xs ++ [13]) ++ 10 :: body)).cs = e.target ∧
        (exec (Http11.table uriRelaxed) (· = .done) act 0 1 (new uriRelaxed).cleared ((xs ++ [13]) ++ 10 :: body)).pos =
          0 + (xs ++ [13]).length + 1 := fun _ => exec_stop hl.through hnext hstops
  have hstart : Holds (new uriRelaxed).cleared .new := ⟨rfl, rfl, rfl, rfl, rfl⟩
  have hruns := hwrites [] (10 :: body) _ hstart
  have hcalls : calls (Http11.table uriRelaxed) (· = .done) 0 1 ((xs ++ [13]) ++ 10 :: body) =
      shift 0 l ++ [((xs ++ [13]).length, .done)] := by
    rw [calls_stop hl.through hnext hstops, hl.calls, hactions, Nat.zero_add]
    rfl
  have hstore : Holds (exec (Http11.table uriRelaxed) (· = .done) (fun a p r => act r ((xs ++ [13]) ++ 10 :: body) a p) 0 1
      (new uriRelaxed).cleared ((xs ++ [13]) ++ 10 :: body)).store d := by
    rw [exec_store, hcalls, runCalls_append]
    exact writes_done _ hruns
  refine ⟨{ hstore with }, (hend _).1.trans htarget, (hend _).2.trans ?_⟩
  simp [lineEnd]

end HttpRequestParser

/-! ### The round trip -/

namespace HttpRequest

open HttpRequestParser

/-- What a caller may put into a request. The header map has no two equivalent names, and the length of a string is a
    number of 64 bits. -/
structure Legal (r : HttpRequest) : Prop where
  version : r.version = 0x10 ∨ r.version = 0x11
  path : AbsolutePath r.path
  query : UriText queryText r.query
  fragment : UriText queryText r.fragment
  names : ∀ h ∈ r.headers, IsToken h.1 ∧ strcaseEquiv h.1 (ascii "connection") = false ∧
    strcaseEquiv h.1 (ascii "content-length") = false
  values : ∀ h ∈ r.headers, IsLine h.2 ∧ ∀ c ∈ h.2.head?, isblank c = false
  keys : r.headers.Pairwise fun x y => strcaseEquiv x.1 y.1 = false
  length : r.body.length < 2 ^ 64

/-- The headers of a request with those that `dump` adds. -/
def sentHeaders (r : HttpRequest) : Headers :=
  (ascii "connection", ascii (if r.close then "close" else "keep-alive")) :: r.headers ++
    if r.body = [] then [] else [(ascii "content-length", decimalText r.body.length)]

/-- What the parser should make of the text of a request. -/
structure Restored (r : HttpRequest) (out : Bytes) (parser : HttpRequestParser) (consumed : Nat) : Prop where
  fine : parser.hasError = false ∧ parser.thrown = false
  finished : parser.isFinished = true
  rest : consumed + r.body.length = out.length
  data : parser.data.method = r.method ∧ parser.data.version = r.version ∧ parser.data.path = r.path ∧
    parser.data.query = r.query ∧ parser.data.fragment = r.fragment ∧ parser.data.close = r.close
  headers : parser.data.headers.Perm r.sentHeaders
  contentLength : parser.getContentLength = r.body.length

/-- The text of a request, read by a fresh parser in one call. -/
def RoundTrips (uriRelaxed : Bool) (r : HttpRequest) : Prop :=
  ∃ out, r.dumpAs r.method.number = some out ∧
    Restored r out ((HttpRequestParser.new uriRelaxed).execute out).1 ((HttpRequestParser.new uriRelaxed).execute out).2

variable {r : HttpRequest} {uriRelaxed : Bool}

/-- The fields as they are written. -/
def fields (r : HttpRequest) : List Field :=
  (true, ascii "connection", ascii (if r.close then "close" else "keep-alive")) :: r.headers.map (false, ·) ++
    if r.body = [] then [] else [(true, ascii "content-length", decimalText r.body.length)]

theorem map_fields : r.fields.map (·.2) = r.sentHeaders := by
  by_cases hnil : r.body = [] <;> simp [fields, sentHeaders, hnil]

theorem token_added : IsToken (ascii "connection") ∧ IsToken (ascii "content-length") := by decide +kernel

theorem isLine_closeText (close : Bool) : IsLine (ascii (if close then "close" else "keep-alive")) ∧
    ∀ c ∈ ascii (if close then "close" else "keep-alive"), valueText c = true ∧ isblank c = false := by
  cases close <;> decide +kernel

theorem decimalText_plain {n : Nat} {c : UInt8} (h : c ∈ decimalText n) : valueText c = true ∧ isblank c = false := by
  have hall : ∀ c, 48 ≤ c.toNat ∧ c.toNat ≤ 57 → valueText c = true ∧ isblank c = false :=
    forall_byte (by decide +kernel)
  exact hall c (digits_of_decimalText h)

theorem writable_fields (h : Legal r) : Writable r.fields := by
  intro x hx
  simp only [fields, List.cons_append, List.mem_cons, List.mem_append, List.mem_map] at hx
  rcases hx with rfl | ⟨y, hy, rfl⟩ | hx
  · obtain ⟨hline, hchars⟩ := isLine_closeText r.close
    exact ⟨token_added.1, hline, fun c hc => (hchars c (List.mem_of_mem_head? hc)).2⟩
  · exact ⟨(h.names y hy).1, h.values y hy⟩
  · split at hx
    · cases hx
    · obtain rfl := List.mem_singleton.mp hx
      exact ⟨token_added.2, isLine_decimalText _, fun c hc => (decimalText_plain (List.mem_of_mem_head? hc)).2⟩

theorem chars_fields : (∀ x ∈ r.fields, ∀ c ∈ x.2.2, valueText c = true) ↔
    ∀ x ∈ r.headers, ∀ c ∈ x.2, valueText c = true := by
  constructor
  · intro h x hx
    refine h (false, x) ?_
    simp only [fields, List.cons_append, List.mem_cons, List.mem_append, List.mem_map]
    exact .inr (.inl ⟨x, hx, rfl⟩)
  · intro h x hx
    simp only [fields, List.cons_append, List.mem_cons, List.mem_append, List.mem_map] at hx
    rcases hx with rfl | ⟨y, hy, rfl⟩ | hx
    · exact fun c hc => ((isLine_closeText r.close).2 c hc).1
    · exact h y hy
    · split at hx
      · cases hx
      · obtain rfl := List.mem_singleton.mp hx
        exact fun c hc => (decimalText_plain hc).1

/-- The start line with its end, in the parts that the machine tells apart. -/
def firstLine (r : HttpRequest) (method : Bytes) : Bytes :=
  method ++ [32] ++ Http11.uriText r.path r.query r.fragment ++
    (ascii "HTTP/" ++ decimalText (r.version / 16) ++ ascii "." ++ decimalText (r.version % 16) ++ lineEnd)

theorem dumpAs_fields (h : Legal r) {x : HttpMethod × String} (hx : x ∈ methodMap) (hm : x.1 = r.method) :
    r.dumpAs r.method.number = some (r.firstLine (ascii x.2) ++ fieldText r.fields ++ lineEnd ++ r.body) := by
  have hmethods : ∀ x ∈ methodMap, httpMethodToString x.1.number = some (ascii x.2) := by decide +kernel
  have hlines : mapLines r.headers id = r.headers.map fun h => h.1 ++ 58 :: h.2 := by
    rw [mapLines, List.filter_eq_self.mpr]
    · rfl
    · intro y hy
      rw [(h.names y hy).2.1]
      rfl
  have htext : unlines ([] ++ [connectionLine r.close] ++ mapLines r.headers id ++ lengthLine r.body) = fieldText r.fields := by
    have hline : ∀ x : Bytes × Bytes, Http11.fieldLine x.1 false x.2 = (x.1 ++ 58 :: x.2) ++ lineEnd := fun x => by
      simp [Http11.fieldLine, lineEnd]
    have hconnection : Http11.fieldLine (ascii "connection") true (ascii (if r.close then "close" else "keep-alive")) =
        connectionLine r.close ++ lineEnd := by
      cases r.close <;> decide
    have hlength : (if r.body = [] then [] else [(true, ascii "content-length", decimalText r.body.length)]).flatMap
        (fun x : Field => Http11.fieldLine x.2.1 x.1 x.2.2) = unlines (lengthLine r.body) := by
      have hascii : ascii "content-length: " = ascii "content-length" ++ [58, 32] := by decide
      rw [lengthLine]
      split
      · rfl
      · simp [unlines, Http11.fieldLine, lineEnd, hascii]
    rw [hlines, List.nil_append, unlines_append, unlines_append, fieldText, fields, List.flatMap_append, List.flatMap_cons, hlength,
      hconnection, List.flatMap_map]
    simp only [unlines, List.flatMap_cons, List.flatMap_nil, List.append_nil, List.flatMap_map, hline]
  have hstart : r.startLine (ascii x.2) ++ lineEnd = r.firstLine (ascii x.2) := by
    have htexts : ascii " " = [32] ∧ ascii "?" = [63] ∧ ascii "#" = [35] ∧ ascii " HTTP/" = [32] ++ ascii "HTTP/" := by decide
    obtain ⟨hblank, hquery, hfragment, hhttp⟩ := htexts
    rw [startLine, firstLine, hblank, hquery, hfragment, hhttp, Http11.uriText]
    by_cases hnil : r.query = [] <;> simp [hnil]
  rw [dumpAs_eq r (hm ▸ hmethods x hx), htext, hstart]

/-- What the callbacks make of the text of a request. -/
def parsed (r : HttpRequest) : HttpRequest :=
  { HttpRequest.new with
    method := r.method, version := r.version, path := r.path, query := r.query, fragment := r.fragment
    headers := r.sentHeaders.foldl (fun m x => m.set x.1 x.2) [] }

theorem reads_firstLine (h : Legal r) {x : HttpMethod × String} (hx : x ∈ methodMap) (hne : x.1 ≠ .msearch) :
    Reads uriRelaxed (r.firstLine (ascii x.2)) 1 13 .new { r.parsed with method := x.1, headers := [] } :=
  ((reads_method uriRelaxed hx hne).append (reads_uri h.path h.query h.fragment rfl rfl)).append (reads_version h.version)

/-- Fields of which the machine takes every byte. -/
theorem reads_text (h : Legal r) {x : HttpMethod × String} (hx : x ∈ methodMap) (hm : x.1 = r.method)
    (hne : r.method ≠ .msearch) (hchars : ∀ x ∈ r.fields, ∀ c ∈ x.2.2, valueText c = true) :
    Reads uriRelaxed (r.firstLine (ascii x.2) ++ fieldText r.fields) 1 13 .new r.parsed := by
  have hreads : Reads uriRelaxed _ 1 13 .new _ :=
    (reads_firstLine h hx (hm ▸ hne)).append (reads_fields (writable_fields h) hchars)
  rw [map_fields, hm] at hreads
  exact hreads

theorem headers_parsed (h : Legal r) : r.parsed.headers.Perm r.sentHeaders := by
  have hadded : strcaseEquiv (ascii "connection") (ascii "content-length") = false := by decide
  have hlength : ∀ {P : Bytes × Bytes → Prop}, (∀ value, P (ascii "content-length", value)) →
      ∀ x ∈ (if r.body = [] then [] else [(ascii "content-length", decimalText r.body.length)]), P x := by
    intro P hP x hx
    split at hx
    · cases hx
    · rw [List.mem_singleton.mp hx]
      exact hP _
  have hpairs : r.sentHeaders.Pairwise fun x y => strcaseEquiv x.1 y.1 = false := by
    refine List.pairwise_append.mpr ⟨List.pairwise_cons.mpr ⟨fun x hx => ?_, h.keys⟩, ?_, fun x hx => ?_⟩
    · rw [strcaseEquiv_comm]
      exact (h.names x hx).2.1
    · split
      · exact .nil
      · exact List.pairwise_singleton _ _
    · refine hlength fun value => ?_
      rcases List.mem_cons.mp hx with rfl | hx
      · exact hadded
      · exact (h.names x hx).2.2
  have hperm := Headers.foldl_set_perm (m := []) hpairs fun x hx => absurd hx List.not_mem_nil
  rwa [List.append_nil] at hperm

theorem contentLength_parsed (h : Legal r) : getHeaderAs r.parsed.headers (ascii "content-length") = r.body.length := by
  have hothers : ∀ x ∈ (ascii "connection", ascii (if r.close then "close" else "keep-alive")) :: r.headers,
      strcaseEquiv x.1 (ascii "content-length") = false := by
    intro x hx
    rcases List.mem_cons.mp hx with rfl | hx
    · exact (by decide : strcaseEquiv (ascii "connection") (ascii "content-length") = false)
    · exact (h.names x hx).2.2
  have hself : strcaseEquiv (ascii "content-length") (ascii "content-length") = true := by decide
  have hfold : r.parsed.headers = _ := List.foldl_append
  rw [getHeaderAs, hfold]
  by_cases hnil : r.body = []
  · rw [if_pos hnil, List.foldl_nil, Headers.get_foldl_set hothers, hnil]
    rfl
  · rw [if_neg hnil, List.foldl_cons, List.foldl_nil, Headers.get_set, hself, if_pos rfl, Option.bind_some,
      lexicalCast_decimalText h.length, Option.getD_some]

theorem exists_string (m : HttpMethod) : ∃ x ∈ methodMap, x.1 = m := by cases m <;> decide

theorem Restored.not_blocked {out : Bytes} {n : Nat}
    (h : Restored r out ((HttpRequestParser.new uriRelaxed).execute out).1 n) :
    ¬Blocked (Http11.table uriRelaxed) (· = .done) 1 out := by
  intro hblocked
  have hcs : ((HttpRequestParser.new uriRelaxed).execute out).1.parser.cs = 0 := hblocked.exec
  have hfinished := h.finished
  rw [HttpRequestParser.isFinished, hcs] at hfinished
  cases hfinished

/-- A method of the machine has no hyphen. -/
theorem msearch_blocked {x : HttpMethod × String} (hm : x.1 = .msearch) (hx : x ∈ methodMap) :
    Blocked (Http11.table uriRelaxed) (· = .done) 1 (r.firstLine (ascii x.2)) := by
  have htext : ∀ x ∈ methodMap, x.1 = .msearch → ascii x.2 = [77] ++ 45 :: ascii "SEARCH" := by decide +kernel
  have hword : Blocked (Http11.table uriRelaxed) (· = .done) 1 (ascii x.2) := by
    rw [htext x hx hm]
    cases uriRelaxed <;> exact ⟨[77], 45, ascii "SEARCH", 2, rfl, rfl, rfl⟩
  simp only [firstLine, List.append_assoc]
  exact hword.append _

theorem valueText_headers (h : Legal r) : (∀ x ∈ r.headers, ∀ c ∈ x.2, valueText c = true) ↔
    ∀ x ∈ r.headers, ∀ c ∈ x.2, c ≠ 0 ∧ c ≠ 127 := by
  refine forall₂_congr fun x hx => forall₂_congr fun c hc => ?_
  obtain ⟨hcr, hlf⟩ := (h.values x hx).1
  have hne : c ≠ 13 ∧ c ≠ 10 := ⟨fun heq => hcr (heq ▸ hc), fun heq => hlf (heq ▸ hc)⟩
  simp [valueText, hne]

theorem restored {text : Bytes} (h : Legal r) (hclose : r.close = true) (hreads : Reads uriRelaxed text 1 13 .new r.parsed) :
    Restored r (text ++ lineEnd ++ r.body) ((HttpRequestParser.new uriRelaxed).execute (text ++ lineEnd ++ r.body)).1
      ((HttpRequestParser.new uriRelaxed).execute (text ++ lineEnd ++ r.body)).2 := by
  obtain ⟨hholds, hcs, hconsumed⟩ := execute_of_reads hreads r.body
  constructor
  · rw [hasError, hholds.error, hcs, hholds.thrown]
    exact ⟨rfl, rfl⟩
  · rw [isFinished, hcs]
    rfl
  · rw [hconsumed, ← List.length_append]
  · rw [hholds.data]
    exact ⟨rfl, rfl, rfl, rfl, rfl, hclose.symm⟩
  · rw [hholds.data]
    exact headers_parsed h
  · rw [getContentLength, hholds.data, contentLength_parsed h]

/-- The text of a request comes back exactly when the request closes the connection, its method is one word of letters,
    and its values have no byte that the machine does not take. -/
theorem request_roundTrips_iff (uriRelaxed : Bool) (r : HttpRequest) (h : Legal r) : RoundTrips uriRelaxed r ↔
    r.close = true ∧ r.method ≠ .msearch ∧ ∀ x ∈ r.headers, ∀ c ∈ x.2, c ≠ 0 ∧ c ≠ 127 := by
  obtain ⟨x, hx, hm⟩ := exists_string r.method
  have hdump := dumpAs_fields h hx hm
  constructor
  · rintro ⟨out, hout, hrestored⟩
    obtain rfl := Option.some.inj (hout.symm.trans hdump)
    have hmethod : x.1 ≠ .msearch := fun hmethod =>
      hrestored.not_blocked ((((msearch_blocked hmethod hx).append _).append _).append _)
    refine ⟨hrestored.data.2.2.2.2.2.symm.trans data_run.1, hm ▸ hmethod, ?_⟩
    rw [← valueText_headers h]
    by_contra hvalues
    obtain ⟨l, hstretch, -⟩ : Reads uriRelaxed _ 1 13 _ _ := reads_firstLine h hx hmethod
    have hfields := hstretch.blocked (fields_blocked (writable_fields h) (mt chars_fields.mp hvalues))
    exact hrestored.not_blocked ((hfields.append _).append _)
  · rintro ⟨hclose, hmethod, hvalues⟩
    have hchars := chars_fields.mpr ((valueText_headers h).mpr hvalues)
    exact ⟨_, hdump, restored h hclose (reads_text h hx hm hmethod hchars)⟩

/-- A `GET` of `/a?b%20#c` with a body. -/
def pageRequest : HttpRequest :=
  { HttpRequest.new with
    path := ascii "/a", query := ascii "b%20", fragment := ascii "c"
    headers := [(ascii "Host", ascii "a b ")], body := ascii "hi" }

theorem request_roundTrips_page : RoundTrips false pageRequest := by
  have hpath : AbsolutePath pageRequest.path := ⟨ascii "a", rfl, .char rfl .nil, by decide⟩
  have hlegal : Legal pageRequest :=
    ⟨by decide, hpath, .char rfl (.pct rfl rfl .nil), .char rfl .nil, by decide +kernel, by decide +kernel, by decide, by decide⟩
  exact (request_roundTrips_iff false pageRequest hlegal).mpr (by decide +kernel)

/-- A `GET` that asks to keep the connection. -/
def keepRequest : HttpRequest := { HttpRequest.new with close := false }

theorem request_roundTrips_fails : ¬∀ uriRelaxed r, Legal r → RoundTrips uriRelaxed r := by
  intro hall
  have hpath : AbsolutePath keepRequest.path := ⟨[], rfl, .nil, by decide⟩
  have hlegal : Legal keepRequest := ⟨by decide, hpath, .nil, .nil, by decide, by decide, by decide, by decide⟩
  obtain ⟨out, -, hrestored⟩ := hall false keepRequest hlegal
  have hclose : ((HttpRequestParser.new false).execute out).1.data.close = true := data_run.1
  have hsame : ((HttpRequestParser.new false).execute out).1.data.close = false := hrestored.data.2.2.2.2.2
  rw [hclose] at hsame
  cases hsame

end HttpRequest
end Http
end MyHttp

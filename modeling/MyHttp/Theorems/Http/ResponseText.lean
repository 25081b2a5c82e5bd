import MyHttp.Http.ClientParser
import MyHttp.Lib.Segments
import MyHttp.Lib.Lines
import MyHttp.Theorems.Http.RequestText

/-! How the machine of `httpclient_parser.rl` runs through the head of a response. It knows three names of headers by
    their letters; every other name, and every value that does not begin with a blank, is read the same way. -/

namespace MyHttp
namespace Http
namespace Client

open Lib.CString Lib.Scan Lib.Lines

variable {name value w : Bytes} {q q₀ : Nat} {as : List ClientAction}

/-- Stretches of a head, in which the machine does not stop. -/
abbrev Stretch := Segment table (· = .done)

/-! ### Names -/

/-- The names that have states of their own. -/
def special : List Bytes := [ascii "connection", ascii "content-length", ascii "transfer-encoding"]

/-- The states inside these names, with what stands before them in small letters. -/
def known : List (Nat × Bytes) :=
  (List.range 10).map (fun i => (25 + i, (ascii "connection").take (i + 1))) ++
    (List.range 11).map (fun i => (101 + i, (ascii "content-length").take (i + 4))) ++
    (List.range 17).map (fun i => (44 + i, (ascii "transfer-encoding").take (i + 1)))

/-- Where the machine may be behind `w`, written in small letters. -/
def Behind (q : Nat) (w : Bytes) : Prop := q = 21 ∨ (q, w) ∈ known

/-- A character that leads from behind `w` to behind one more. -/
def leads (q : Nat) (w : Bytes) (as : List ClientAction) (c : UInt8) : Bool :=
  match edge table q c with
  | some (q', as') => as' = as && (q' = 21 || known.contains (q', w ++ [tolower c]))
  | none => false

/-- The states in which a name may begin, with the actions of its first character. -/
def starts : List (Nat × List ClientAction) := [(20, [.startField]), (43, [.writeConnectionClose, .startField])]

set_option synthInstance.maxSize 512 in
theorem name_rows : ∀ c, tokenChar c = true →
    edge table 21 c = some (21, []) ∧ (∀ x ∈ starts, leads x.1 [] x.2 c = true) ∧
      ∀ x ∈ known, leads x.1 x.2 [] c = true := by
  refine forall_byte ?_
  decide +kernel

/-- The colon behind a name. -/
theorem colon_rows : edge table 21 58 = some (22, [.writeField]) ∧
    ∀ x ∈ known, x.2 ∉ special → edge table x.1 58 = some (22, [.writeField]) := by
  decide +kernel

theorem behind_of_leads {c : UInt8} (h : leads q w as c = true) :
    ∃ q', edge table q c = some (q', as) ∧ Behind q' (w ++ [tolower c]) := by
  unfold leads at h
  split at h
  · rename_i q' as' hedge
    rw [Bool.and_eq_true, decide_eq_true_eq, Bool.or_eq_true, decide_eq_true_eq, List.contains_iff_mem] at h
    exact ⟨q', h.1 ▸ hedge, h.2⟩
  · cases h

/-- Inside a name the machine always knows what it has read of the names with their own states. -/
theorem stretch_more (h : Behind q w) (hname : ∀ c ∈ name, tokenChar c = true) :
    ∃ q', Behind q' (w ++ name.map tolower) ∧ Stretch name q q' [] := by
  induction name generalizing q w with
  | nil => exact ⟨q, by simpa using h, .nil⟩
  | cons c name ih =>
    obtain ⟨hloop, -, hknown⟩ := name_rows c (hname c List.mem_cons_self)
    obtain ⟨q₁, hedge, hbehind⟩ : ∃ q₁, edge table q c = some (q₁, []) ∧ Behind q₁ (w ++ [tolower c]) := by
      rcases h with rfl | hw
      · exact ⟨21, hloop, .inl rfl⟩
      · exact behind_of_leads (hknown _ hw)
    obtain ⟨q', hq', hstretch⟩ := ih hbehind fun d hd => hname d (List.mem_cons_of_mem c hd)
    exact ⟨q', by simpa using hq', .skip hedge hstretch⟩

/-- The letters of a token. -/
theorem caseless_token (h : ∀ c ∈ name, tokenChar c = true) : caseless name = name.map tolower := by
  rw [caseless, List.takeWhile_eq_self_iff.mpr]
  intro c hc
  have hzero : tokenChar 0 = false := by decide
  by_contra hne
  have heq : c = 0 := by simpa using hne
  rw [heq] at hc
  rw [h 0 hc] at hzero
  cases hzero

/-- A name of any header but those three, with its colon. -/
theorem stretch_name (hstart : (q₀, as) ∈ starts) (h : IsToken name) (hother : ∀ x ∈ special, strcaseEquiv name x = false) :
    Stretch (name ++ [58]) q₀ 22 (as.map (0, ·) ++ [(name.length, .writeField)]) := by
  obtain ⟨hne, hchars⟩ := h
  obtain ⟨c, name, rfl⟩ := List.exists_cons_of_ne_nil hne
  obtain ⟨-, hfirst, -⟩ := name_rows c (hchars c List.mem_cons_self)
  obtain ⟨q, hedge, hbehind⟩ := behind_of_leads (hfirst _ hstart)
  obtain ⟨q', hq', hstretch⟩ := stretch_more hbehind fun d hd => hchars d (List.mem_cons_of_mem c hd)
  have hcolon : edge table q' 58 = some (22, [.writeField]) := by
    rcases hq' with rfl | hknown
    · exact colon_rows.1
    · refine colon_rows.2 _ hknown fun hmem => ?_
      have hlower : ∀ x ∈ special, caseless x = x := by decide
      have hequiv := hother _ hmem
      have heq : strcaseEquiv (c :: name) ([] ++ [tolower c] ++ name.map tolower) = true := by
        rw [strcaseEquiv_iff, hlower _ hmem, caseless_token hchars]
        simp
      rw [heq] at hequiv
      cases hequiv
  have hquiet : as.any (· = .done) = false := by
    have hall : ∀ x ∈ starts, x.2.any (· = .done) = false := by decide
    exact hall _ hstart
  have hall := Segment.cons hedge hquiet (hstretch.append (.byte hcolon rfl))
  simpa [shift] using hall

/-! ### Values -/

/-- Blanks in front of a value. -/
def leadingBlank (c : UInt8) : Bool := space.has c

def lineChar (c : UInt8) : Bool := c ≠ 13 && c ≠ 10

set_option synthInstance.maxSize 512 in
theorem value_rows : ∀ c, lineChar c = true →
    (leadingBlank c = false → edge table 22 c = some (23, [.mark])) ∧ edge table 23 c = some (23, []) ∧
      edge table 18 c = some (19, [.mark]) ∧ edge table 19 c = some (19, []) := by
  refine forall_byte ?_
  decide +kernel

theorem lineChar_of_isLine {c : UInt8} (h : IsLine value) (hc : c ∈ value) : lineChar c = true := by
  have hcr : c ≠ 13 := fun heq => h.1 (heq ▸ hc)
  have hlf : c ≠ 10 := fun heq => h.2 (heq ▸ hc)
  simp [lineChar, hcr, hlf]

/-- A value with the end of its line. -/
theorem stretch_value (h : IsLine value) (hfirst : ∀ c ∈ value.head?, leadingBlank c = false) :
    Stretch (value ++ lineEnd) 22 20 [(0, .mark), (value.length, .writeValue)] := by
  have hlf : edge table 24 10 = some (20, []) := by decide
  cases value with
  | nil =>
    have hcr : edge table 22 13 = some (24, [.mark, .writeValue]) := by decide
    exact .cons hcr rfl (.byte hlf rfl)
  | cons c value =>
    have hcr : edge table 23 13 = some (24, [.writeValue]) := by decide
    have hloop : Stretch value 23 23 [] :=
      .loop fun d hd => (value_rows d (lineChar_of_isLine h (List.mem_cons_of_mem c hd))).2.1
    have hone := (value_rows c (lineChar_of_isLine h List.mem_cons_self)).1 (hfirst c rfl)
    have hall := Segment.cons hone rfl (hloop.append (.cons hcr rfl (.byte hlf rfl)))
    simpa [shift, lineEnd] using hall

/-- A header line as a response writes it. -/
def fieldLine (name value : Bytes) : Bytes := name ++ [58] ++ ([32] ++ (value ++ lineEnd))

/-- The actions on a header line, the first of them `as`. -/
def fieldCalls (as : List ClientAction) (name value : Bytes) (more : List ClientAction) : List (Nat × ClientAction) :=
  as.map (0, ·) ++ [(name.length, .writeField), (name.length + 1, .mark), (name.length + 2, .mark)] ++
    more.map (name.length + 2 + value.length, ·)

theorem stretch_field (hstart : (q₀, as) ∈ starts) (hname : IsToken name)
    (hother : ∀ x ∈ special, strcaseEquiv name x = false) (h : IsLine value)
    (hfirst : ∀ c ∈ value.head?, leadingBlank c = false) :
    Stretch (fieldLine name value) q₀ 20 (fieldCalls as name value [.writeValue]) := by
  have hedge : edge table 22 32 = some (22, [.mark]) := by decide
  have hblank : Stretch [32] 22 22 [(0, .mark)] := .byte hedge rfl
  have hall := (stretch_name hstart hname hother).append (hblank.append (stretch_value h hfirst))
  simpa [fieldLine, fieldCalls, shift, Nat.add_comm, Nat.add_left_comm] using hall

/-! ### The lines that every response has -/

/-- Where the machine is behind the connection line, with the actions that come with the next byte. -/
def afterConnection (close : Bool) : Nat × List ClientAction := if close then (43, [.writeConnectionClose]) else (20, [])

theorem stretch_connection (close : Bool) :
    Stretch (fieldLine (ascii "connection") (ascii (if close then "close" else "keep-alive"))) 20 (afterConnection close).1
      (fieldCalls [.startField] (ascii "connection") (ascii (if close then "close" else "keep-alive")) [.writeValue]) := by
  cases close <;> exact .of_calls (by decide +kernel) (by decide +kernel)

set_option synthInstance.maxSize 512 in
/-- The edges of a digit. -/
theorem digit_rows : ∀ c : UInt8, 48 ≤ c.toNat ∧ c.toNat ≤ 57 →
    edge table 112 c = some (119, [.mark]) ∧ edge table 119 c = some (119, []) ∧
      edge table 16 c = some (17, [.mark]) ∧ edge table 17 c = some (17, []) := by
  refine forall_byte ?_
  decide +kernel

/-- A text of digits in front of a byte that ends it. -/
theorem stretch_digits {q₁ q₂ q₃ : Nat} {c : UInt8} {as : List ClientAction} (hne : value ≠ [])
    (hrows : ∀ d ∈ value, edge table q₁ d = some (q₂, [.mark]) ∧ edge table q₂ d = some (q₂, []))
    (hend : edge table q₂ c = some (q₃, as)) (hquiet : as.any (· = .done) = false) :
    Stretch (value ++ [c]) q₁ q₃ ((0, .mark) :: as.map (value.length, ·)) := by
  obtain ⟨d, value, rfl⟩ := List.exists_cons_of_ne_nil hne
  have hloop : Stretch value q₂ q₂ [] := .loop fun e he => (hrows e (List.mem_cons_of_mem d he)).2
  have hall := Segment.cons (hrows d List.mem_cons_self).1 rfl (hloop.append (.byte hend hquiet))
  simpa [shift, Function.comp_def] using hall

/-- The line with the length of the body. -/
theorem stretch_length (close : Bool) (hne : value ≠ []) (hdigits : ∀ c ∈ value, 48 ≤ c.toNat ∧ c.toNat ≤ 57) :
    Stretch (fieldLine (ascii "content-length") value) (afterConnection close).1 20
      (fieldCalls ((afterConnection close).2 ++ [.startField]) (ascii "content-length") value
        [.writeContentLen, .writeValue]) := by
  have hname : Stretch (ascii "content-length" ++ [58]) (afterConnection close).1 112
      (((afterConnection close).2 ++ [ClientAction.startField]).map (0, ·) ++
        [((ascii "content-length").length, .writeField)]) := by
    cases close <;> exact .of_calls (by decide +kernel) (by decide +kernel)
  have hedge : edge table 112 32 = some (112, [.mark]) := by decide
  have hend : edge table 24 10 = some (20, []) := by decide
  have hcr : edge table 119 13 = some (24, [.writeContentLen, .writeValue]) := by decide
  have hblank : Stretch [32] 112 112 [(0, .mark)] := .byte hedge rfl
  have hlf : Stretch [10] 24 20 [] := .byte hend rfl
  have hvalue := stretch_digits hne (fun d hd => ⟨(digit_rows d (hdigits d hd)).1, (digit_rows d (hdigits d hd)).2.1⟩) hcr rfl
  have hall := hname.append (hblank.append (hvalue.append hlf))
  have hcount : (ascii "content-length").length = 14 := by decide
  rw [hcount] at hall
  simpa [fieldLine, fieldCalls, shift, lineEnd, hcount, Nat.add_comm] using hall

/-! ### The start line -/

theorem stretch_version {digit : UInt8} (h : digit = 48 ∨ digit = 49) :
    Stretch [72, 84, 84, 80, 47, 49, 46, digit, 32] 1 16 [(0, .mark), (8, .httpVersion)] := by
  rcases h with rfl | rfl <;> exact .of_calls (by decide +kernel) (by decide +kernel)

theorem stretch_status (hne : value ≠ []) (hdigits : ∀ c ∈ value, 48 ≤ c.toNat ∧ c.toNat ≤ 57) :
    Stretch (value ++ [32]) 16 18 [(0, .mark), (value.length, .statusCode)] := by
  have hblank : edge table 17 32 = some (18, [.statusCode]) := by decide
  exact stretch_digits hne (fun d hd => (digit_rows d (hdigits d hd)).2.2) hblank rfl

theorem stretch_reason (hne : value ≠ []) (h : IsLine value) :
    Stretch (value ++ lineEnd) 18 20 [(0, .mark), (value.length, .reasonPhrase)] := by
  obtain ⟨c, value, rfl⟩ := List.exists_cons_of_ne_nil hne
  have hcr : edge table 19 13 = some (24, [.reasonPhrase]) := by decide
  have hlf : edge table 24 10 = some (20, []) := by decide
  have hloop : Stretch value 19 19 [] :=
    .loop fun d hd => (value_rows d (lineChar_of_isLine h (List.mem_cons_of_mem c hd))).2.2.2
  have hone := (value_rows c (lineChar_of_isLine h List.mem_cons_self)).2.2.1
  have hall := Segment.cons hone rfl (hloop.append (.cons hcr rfl (.byte hlf rfl)))
  simpa [shift, lineEnd] using hall

end Client
end Http
end MyHttp

import MyHttp.Http.Http11Parser
import MyHttp.Lib.Segments
import Mathlib.Data.List.TakeWhile

/-! The texts that a request is made of, as `http11_parser.rl` names them, and how the machine runs through them. -/

namespace MyHttp
namespace Http

open Lib.CString Lib.Scan

/-- `pchar` without `pct_encoded`, and the slash. -/
def pathText (c : UInt8) : Bool :=
  CharClass.has [(33, 33), (36, 36), (38, 59), (61, 61), (64, 90), (95, 95), (97, 122), (126, 126)] c

/-- The same and the question mark. -/
def queryText (c : UInt8) : Bool := pathText c || c = 63

/-- Characters of a kind and `pct_encoded` ones. -/
inductive UriText (legal : UInt8 → Bool) : Bytes → Prop
  | nil : UriText legal []
  | char {c : UInt8} {s : Bytes} : legal c = true → UriText legal s → UriText legal (c :: s)
  | pct {a b : UInt8} {s : Bytes} : isxdigit a = true → isxdigit b = true → UriText legal s →
      UriText legal (37 :: a :: b :: s)

/-- `path_absolute`: one slash, and not two. -/
def AbsolutePath (s : Bytes) : Prop := ∃ rest, s = 47 :: rest ∧ UriText pathText rest ∧ rest.head? ≠ some 47

def tokenChar (c : UInt8) : Bool :=
  CharClass.has [(33, 33), (35, 39), (42, 43), (45, 46), (48, 57), (65, 90), (94, 122), (124, 124), (126, 126)] c

def IsToken (s : Bytes) : Prop := s ≠ [] ∧ ∀ c ∈ s, tokenChar c = true

instance (s : Bytes) : Decidable (IsToken s) := inferInstanceAs (Decidable (_ ∧ _))

def isblank (c : UInt8) : Bool := c = 32 || c = 9

/-- What the machine takes inside a field value. -/
def valueText (c : UInt8) : Bool := c ≠ 0 && c ≠ 127 && c ≠ 10 && c ≠ 13

namespace Http11

variable {relaxed : Bool} {legal : UInt8 → Bool} {xs s name value : Bytes} {q : Nat} {as : List RequestAction}

/-- Stretches of a head, in which the machine does not stop. -/
abbrev Stretch (relaxed : Bool) := Segment (table relaxed) (· = .done)

/-! ### Edges -/

set_option synthInstance.maxSize 512 in
/-- The rows of a path, of a query and of a fragment. -/
theorem uri_rows : ∀ relaxed c,
    (pathText c = true → edge (table relaxed) 26 c = some (26, []) ∧ (c ≠ 47 → edge (table relaxed) 33 c = some (26, []))) ∧
    (queryText c = true →
      edge (table relaxed) 29 c = some (30, [.startQuery]) ∧ edge (table relaxed) 30 c = some (30, []) ∧
      edge (table relaxed) 20 c = some (21, [.mark]) ∧ edge (table relaxed) 21 c = some (21, [])) ∧
    (isxdigit c = true → ∀ x ∈ [(27, 28), (28, 26), (31, 32), (32, 30), (22, 23), (23, 21)],
      edge (table relaxed) x.1 c = some (x.2, [])) := fun relaxed =>
  forall_byte (by cases relaxed <;> decide +kernel)

set_option synthInstance.maxSize 512 in
/-- The rows of the name and of the value of a field. -/
theorem field_rows : ∀ relaxed c,
    (tokenChar c = true →
      edge (table relaxed) 13 c = some (14, [.startField]) ∧ edge (table relaxed) 14 c = some (14, [])) ∧
    (valueText c = true →
      edge (table relaxed) 16 c = some (16, []) ∧ (isblank c = false → edge (table relaxed) 15 c = some (16, [.mark]))) :=
  fun relaxed => forall_byte (by cases relaxed <;> decide +kernel)

theorem edge_path (relaxed : Bool) (c : UInt8) (hc : pathText c = true) : edge (table relaxed) 26 c = some (26, []) :=
  ((uri_rows relaxed c).1 hc).1

/-- Behind the first slash. -/
theorem edge_segment (relaxed : Bool) (c : UInt8) (hc : (pathText c && c ≠ 47) = true) :
    edge (table relaxed) 33 c = some (26, []) := by
  obtain ⟨hpath, hslash⟩ := Bool.and_eq_true_iff.mp hc
  exact ((uri_rows relaxed c).1 hpath).2 (of_decide_eq_true hslash)

theorem edge_query (relaxed : Bool) (c : UInt8) (hc : queryText c = true) :
    edge (table relaxed) 29 c = some (30, [.startQuery]) ∧ edge (table relaxed) 30 c = some (30, []) := by
  obtain ⟨hfirst, hmore, -⟩ := (uri_rows relaxed c).2.1 hc
  exact ⟨hfirst, hmore⟩

theorem edge_fragment (relaxed : Bool) (c : UInt8) (hc : queryText c = true) :
    edge (table relaxed) 20 c = some (21, [.mark]) ∧ edge (table relaxed) 21 c = some (21, []) :=
  ((uri_rows relaxed c).2.1 hc).2.2

/-- The two digits of a `pct_encoded` character. -/
theorem edge_hex (relaxed : Bool) (c : UInt8) (hc : isxdigit c = true) :
    ∀ x ∈ [(27, 28), (28, 26), (31, 32), (32, 30), (22, 23), (23, 21)], edge (table relaxed) x.1 c = some (x.2, []) :=
  (uri_rows relaxed c).2.2 hc

theorem edge_name (relaxed : Bool) (c : UInt8) (hc : tokenChar c = true) :
    edge (table relaxed) 13 c = some (14, [.startField]) ∧ edge (table relaxed) 14 c = some (14, []) :=
  (field_rows relaxed c).1 hc

theorem edge_value (relaxed : Bool) (c : UInt8) (hc : valueText c = true) : edge (table relaxed) 16 c = some (16, []) :=
  ((field_rows relaxed c).2 hc).1

/-- Behind the colon and blanks. -/
theorem edge_first (relaxed : Bool) (c : UInt8) (hc : (valueText c && !isblank c) = true) :
    edge (table relaxed) 15 c = some (16, [.mark]) := by
  obtain ⟨hvalue, hblank⟩ := Bool.and_eq_true_iff.mp hc
  exact ((field_rows relaxed c).2 hvalue).2 (Bool.not_eq_true' _ ▸ hblank)

/-! ### The parts of the request line -/

/-- A text of which the machine runs through every character in one state. -/
theorem stretch_loop (q₁ q₂ : Nat) (hchar : ∀ c, legal c = true → edge (table relaxed) q c = some (q, []))
    (hpct : edge (table relaxed) q 37 = some (q₁, []))
    (hone : ∀ c, isxdigit c = true → edge (table relaxed) q₁ c = some (q₂, []))
    (htwo : ∀ c, isxdigit c = true → edge (table relaxed) q₂ c = some (q, [])) (h : UriText legal s) :
    Stretch relaxed s q q [] := by
  induction h with
  | nil => exact .nil
  | char hc _ ih => exact .skip (hchar _ hc) ih
  | pct ha hb _ ih => exact .skip hpct (.skip (hone _ ha) (.skip (htwo _ hb) ih))

theorem stretch_pathLoop (h : UriText pathText s) : Stretch relaxed s 26 26 [] := by
  refine stretch_loop 27 28 (edge_path relaxed) ?_ (fun c hc => ?_) (fun c hc => ?_) h
  · cases relaxed <;> decide
  · exact edge_hex relaxed c hc (27, 28) (by decide)
  · exact edge_hex relaxed c hc (28, 26) (by decide)

theorem stretch_queryLoop (h : UriText queryText s) : Stretch relaxed s 30 30 [] := by
  refine stretch_loop 31 32 (fun c hc => (edge_query relaxed c hc).2) ?_ (fun c hc => ?_) (fun c hc => ?_) h
  · cases relaxed <;> decide
  · exact edge_hex relaxed c hc (31, 32) (by decide)
  · exact edge_hex relaxed c hc (32, 30) (by decide)

theorem stretch_fragmentLoop (h : UriText queryText s) : Stretch relaxed s 21 21 [] := by
  refine stretch_loop 22 23 (fun c hc => (edge_fragment relaxed c hc).2) ?_ (fun c hc => ?_)
    (fun c hc => ?_) h
  · cases relaxed <;> decide
  · exact edge_hex relaxed c hc (22, 23) (by decide)
  · exact edge_hex relaxed c hc (23, 21) (by decide)

/-- The method of a request line, with the blank behind it. -/
theorem stretch_method (relaxed : Bool) {x : HttpMethod × String} (hx : x ∈ methodMap) (hne : x.1 ≠ .msearch) :
    Stretch relaxed (ascii x.2 ++ [32]) 1 3 [(0, .mark), ((ascii x.2).length, .requestMethod)] := by
  have hall : ∀ relaxed, ∀ x ∈ methodMap, x.1 = .msearch ∨
      (through (table relaxed) (· = .done) 1 (ascii x.2 ++ [32]) = some 3 ∧
        calls (table relaxed) (· = .done) 0 1 (ascii x.2 ++ [32]) = [(0, .mark), ((ascii x.2).length, .requestMethod)]) := by
    decide +kernel
  obtain ⟨hthrough, hcalls⟩ := (hall relaxed x hx).resolve_left hne
  exact .of_calls hthrough hcalls

/-- The states behind a path. -/
def PathEnd (q : Nat) : Prop := q = 33 ∨ q = 26

theorem stretch_path (h : AbsolutePath s) : ∃ q, PathEnd q ∧ Stretch relaxed s 3 q [(0, .mark)] := by
  obtain ⟨rest, rfl, hrest, hslash⟩ := h
  have hstart : edge (table relaxed) 3 47 = some (33, [.mark]) := by cases relaxed <;> decide
  cases hrest with
  | nil => exact ⟨33, .inl rfl, .cons hstart rfl .nil⟩
  | @char c s hc hs =>
    have hne : c ≠ 47 := by
      rintro rfl
      exact hslash rfl
    exact ⟨26, .inr rfl, .cons hstart rfl (.skip (edge_segment relaxed c (by simp [hc, hne])) (stretch_pathLoop hs))⟩
  | @pct a b s ha hb hs =>
    have hpct : edge (table relaxed) 33 37 = some (27, []) := by cases relaxed <;> decide
    exact ⟨26, .inr rfl, .cons hstart rfl (.skip hpct (.skip (edge_hex relaxed a ha (27, 28) (by decide))
      (.skip (edge_hex relaxed b hb (28, 26) (by decide)) (stretch_pathLoop hs))))⟩

/-- A query that is not empty, with its question mark. -/
theorem stretch_query (hq : PathEnd q) (h : UriText queryText s) (hne : s ≠ []) :
    Stretch relaxed (63 :: s) q 30 [(0, .requestPath), (1, .startQuery)] := by
  have hmark : edge (table relaxed) q 63 = some (29, [.requestPath]) := by
    rcases hq with rfl | rfl <;> cases relaxed <;> decide
  cases h with
  | nil => exact absurd rfl hne
  | @char c s hc hs => exact .cons hmark rfl (.cons (edge_query relaxed c hc).1 rfl (stretch_queryLoop hs))
  | @pct a b s ha hb hs =>
    have hpct : edge (table relaxed) 29 37 = some (31, [.startQuery]) := by cases relaxed <;> decide
    exact .cons hmark rfl (.cons hpct rfl (.skip (edge_hex relaxed a ha (31, 32) (by decide))
      (.skip (edge_hex relaxed b hb (32, 30) (by decide)) (stretch_queryLoop hs))))

/-- The actions of a fragment, when its number sign or the blank behind the URI is at 0. -/
def fragmentCalls (s : Bytes) : List (Nat × RequestAction) :=
  if s = [] then [] else [(1, .mark), (s.length + 1, .fragment)]

/-- The fragment with its number sign, and the blank behind the URI. -/
theorem stretch_fragment (hblank : edge (table relaxed) q 32 = some (4, as)) (hsign : edge (table relaxed) q 35 = some (20, as))
    (hstops : as.any (· = .done) = false) (h : UriText queryText s) :
    Stretch relaxed ((if s = [] then [] else [35]) ++ s ++ [32]) q 4 (as.map (0, ·) ++ fragmentCalls s) := by
  have hend : edge (table relaxed) 21 32 = some (4, [.fragment]) := by cases relaxed <;> decide
  cases h with
  | nil =>
    have hbyte := Segment.byte hblank hstops
    simpa [fragmentCalls] using hbyte
  | @char c s hc hs =>
    have hfirst := (edge_fragment relaxed c hc).1
    have htail : Stretch relaxed (s ++ [32]) 21 4 _ := (stretch_fragmentLoop hs).append (.byte hend rfl)
    have hall := Segment.cons hsign hstops (.cons hfirst rfl htail)
    rw [if_neg (List.cons_ne_nil c s), fragmentCalls, if_neg (List.cons_ne_nil c s)]
    simpa [shift] using hall
  | @pct a b s ha hb hs =>
    have hpct : edge (table relaxed) 20 37 = some (22, [.mark]) := by cases relaxed <;> decide
    have htail : Stretch relaxed (s ++ [32]) 21 4 _ := (stretch_fragmentLoop hs).append (.byte hend rfl)
    have hall := Segment.cons hsign hstops (.cons hpct rfl (.cons (edge_hex relaxed a ha (22, 23) (by decide)) rfl
      (.cons (edge_hex relaxed b hb (23, 21) (by decide)) rfl htail)))
    rw [if_neg (List.cons_ne_nil 37 _), fragmentCalls, if_neg (List.cons_ne_nil 37 _)]
    simpa [shift] using hall

/-- The actions of a URI behind a blank, with the blank behind it. -/
def uriCalls (path query fragment : Bytes) : List (Nat × RequestAction) :=
  let k := path.length + (if query = [] then 0 else query.length + 1)
  [(0, .mark), (path.length, .requestPath)] ++
    (if query = [] then [] else [(path.length + 1, .startQuery), (k, .queryString)]) ++ [(k, .requestUri)] ++
    if fragment = [] then [] else [(k + 1, .mark), (k + fragment.length + 1, .fragment)]

/-- A URI as it is written, with the blank behind it. -/
def uriText (path query fragment : Bytes) : Bytes :=
  path ++ (if query = [] then [] else 63 :: query) ++ ((if fragment = [] then [] else [35]) ++ fragment ++ [32])

theorem stretch_uri {path query fragment : Bytes} (hpath : AbsolutePath path) (hquery : UriText queryText query)
    (hfragment : UriText queryText fragment) :
    Stretch relaxed (uriText path query fragment) 3 4 (uriCalls path query fragment) := by
  obtain ⟨q, hq, hstretch⟩ : ∃ q, PathEnd q ∧ Stretch relaxed path 3 q _ := stretch_path hpath
  have hcalls : ∀ k, shift k (fragmentCalls fragment) =
      if fragment = [] then [] else [(k + 1, .mark), (k + fragment.length + 1, .fragment)] := by
    intro k
    unfold fragmentCalls
    split
    · rfl
    · simp only [shift, List.map_cons, List.map_nil]
      rw [Nat.add_comm 1, Nat.add_right_comm, Nat.add_comm fragment.length]
  by_cases hnil : query = []
  · have hblank : edge (table relaxed) q 32 = some (4, [.requestPath, .requestUri]) := by
      rcases hq with rfl | rfl <;> cases relaxed <;> decide
    have hsign : edge (table relaxed) q 35 = some (20, [.requestPath, .requestUri]) := by
      rcases hq with rfl | rfl <;> cases relaxed <;> decide
    have hall := hstretch.append (stretch_fragment hblank hsign rfl hfragment)
    rw [shift_append, hcalls] at hall
    simpa [uriText, uriCalls, hnil, shift] using hall
  · have hblank : edge (table relaxed) 30 32 = some (4, [.queryString, .requestUri]) := by cases relaxed <;> decide
    have hsign : edge (table relaxed) 30 35 = some (20, [.queryString, .requestUri]) := by cases relaxed <;> decide
    have hall := hstretch.append ((stretch_query hq hquery hnil).append (stretch_fragment hblank hsign rfl hfragment))
    rw [shift_append, shift_append, shift_append, shift_shift, shift_shift, hcalls, List.length_cons,
      Nat.add_comm _ path.length] at hall
    simpa [uriText, uriCalls, hnil, shift, Nat.add_comm] using hall

/-- The version of a request line, with the end of the line. -/
theorem stretch_version {digit : UInt8} (h : digit = 48 ∨ digit = 49) :
    Stretch relaxed [72, 84, 84, 80, 47, 49, 46, digit, 13, 10] 4 13 [(0, .mark), (8, .httpVersion)] := by
  rcases h with rfl | rfl <;> cases relaxed <;> exact .of_calls (by decide +kernel) (by decide +kernel)

/-! ### Header lines -/

/-- A header line, with an optional blank in front of the value. -/
def fieldLine (name : Bytes) (blank : Bool) (value : Bytes) : Bytes :=
  name ++ 58 :: ((if blank then [32] else []) ++ value ++ [13, 10])

def fieldCalls (name : Bytes) (blank : Bool) (value : Bytes) : List (Nat × RequestAction) :=
  let k := name.length + 1 + blank.toNat
  [(0, .startField), (name.length, .writeField)] ++ (if blank then [(name.length + 1, .mark)] else []) ++
    [(k, .mark), (k + value.length, .writeValue)]

/-- A name with its colon. -/
theorem stretch_name (h : IsToken name) :
    Stretch relaxed (name ++ [58]) 13 15 [(0, .startField), (name.length, .writeField)] := by
  obtain ⟨hne, hchars⟩ := h
  cases name with
  | nil => exact absurd rfl hne
  | cons c name =>
    have hcolon : edge (table relaxed) 14 58 = some (15, [.writeField]) := by cases relaxed <;> decide
    have hloop : Stretch relaxed name 14 14 [] :=
      .loop fun d hd => (edge_name relaxed d (hchars d (List.mem_cons_of_mem c hd))).2
    have hall := Segment.cons (edge_name relaxed c (hchars c List.mem_cons_self)).1 rfl (hloop.append (.byte hcolon rfl))
    simpa [shift] using hall

theorem stretch_blank (blank : Bool) :
    Stretch relaxed (if blank then [32] else []) 15 15 (if blank then [(0, .mark)] else []) := by
  have hblank : edge (table relaxed) 15 32 = some (15, [.mark]) := by cases relaxed <;> decide
  cases blank with
  | false => exact .nil
  | true => exact .byte hblank rfl

/-- A value with the end of its line. -/
theorem stretch_value (hchars : ∀ c ∈ value, valueText c = true) (hfirst : ∀ c ∈ value.head?, isblank c = false) :
    Stretch relaxed (value ++ [13, 10]) 15 13 [(0, .mark), (value.length, .writeValue)] := by
  have hlf : edge (table relaxed) 17 10 = some (13, []) := by cases relaxed <;> decide
  cases value with
  | nil =>
    have hcr : edge (table relaxed) 15 13 = some (17, [.mark, .writeValue]) := by cases relaxed <;> decide
    exact .cons hcr rfl (.byte hlf rfl)
  | cons c value =>
    have hcr : edge (table relaxed) 16 13 = some (17, [.writeValue]) := by cases relaxed <;> decide
    have hloop : Stretch relaxed value 16 16 [] :=
      .loop fun d hd => edge_value relaxed d (hchars d (List.mem_cons_of_mem c hd))
    have hone := edge_first relaxed c (by simp [hchars c List.mem_cons_self, hfirst c rfl])
    have hall := Segment.cons hone rfl (hloop.append (.cons hcr rfl (.byte hlf rfl)))
    simpa [shift] using hall

theorem stretch_field (blank : Bool) (hname : IsToken name) (hchars : ∀ c ∈ value, valueText c = true)
    (hfirst : ∀ c ∈ value.head?, isblank c = false) :
    Stretch relaxed (fieldLine name blank value) 13 13 (fieldCalls name blank value) := by
  have hvalue : Stretch relaxed (value ++ [13, 10]) 15 13 _ := stretch_value hchars hfirst
  have hall := (stretch_name hname).append ((stretch_blank blank).append hvalue)
  cases blank with
  | false => simpa [fieldLine, fieldCalls, shift, Nat.add_comm, Nat.add_left_comm] using hall
  | true => simpa [fieldLine, fieldCalls, shift, Nat.add_comm, Nat.add_left_comm] using hall

/-- A byte that a value may not hold, and that does not end its line. -/
theorem value_blocked (hline : 13 ∉ value ∧ 10 ∉ value) (hfirst : ∀ c ∈ value.head?, isblank c = false)
    (h : ¬∀ c ∈ value, valueText c = true) : Blocked (table relaxed) (· = .done) 15 value := by
  have hnone : ∀ relaxed, ∀ c ∈ [(0 : UInt8), 127], (next (table relaxed) 15 c).isNone ∧ (next (table relaxed) 16 c).isNone := by
    decide +kernel
  obtain ⟨c, back, hdrop⟩ : ∃ c back, value.dropWhile valueText = c :: back := by
    refine List.exists_cons_of_ne_nil fun hnil => h ?_
    exact List.dropWhile_eq_nil_iff.mp hnil
  have hvalue : value = value.takeWhile valueText ++ c :: back := by rw [← hdrop, List.takeWhile_append_dropWhile]
  have hbad : valueText c = false := by
    have hhead := List.head?_dropWhile_not valueText value
    rw [hdrop] at hhead
    simpa using hhead
  have hmem : c ∈ value := hvalue ▸ List.mem_append_right _ List.mem_cons_self
  have hone : c ∈ [(0 : UInt8), 127] := by
    have hcr : c ≠ 13 := fun heq => hline.1 (heq ▸ hmem)
    have hlf : c ≠ 10 := fun heq => hline.2 (heq ▸ hmem)
    simp only [valueText, hcr, hlf, ne_eq, not_false_eq_true, decide_true, Bool.and_true, Bool.and_eq_false_iff,
      decide_eq_false_iff_not, not_not] at hbad
    simpa using hbad
  obtain ⟨hfifteen, hsixteen⟩ := hnone relaxed c hone
  rw [hvalue]
  cases htake : value.takeWhile valueText with
  | nil => exact ⟨[], c, back, 15, rfl, rfl, Option.isNone_iff_eq_none.mp hfifteen⟩
  | cons d front =>
    have hchars : ∀ x ∈ d :: front, valueText x = true := fun x hx => List.mem_takeWhile_imp (htake ▸ hx)
    have hstart : isblank d = false := hfirst d (by rw [hvalue, htake]; rfl)
    have hloop : Stretch relaxed front 16 16 [] :=
      .loop fun x hx => edge_value relaxed x (hchars x (List.mem_cons_of_mem d hx))
    have hone := edge_first relaxed d (by simp [hchars d List.mem_cons_self, hstart])
    exact ⟨d :: front, c, back, 16, rfl, (Segment.cons hone rfl hloop).through, Option.isNone_iff_eq_none.mp hsixteen⟩

end Http11
end Http
end MyHttp

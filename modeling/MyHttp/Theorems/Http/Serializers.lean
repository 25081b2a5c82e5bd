import MyHttp.Http.Message
import MyHttp.Lib.Lines
import Mathlib.Tactic.NormNum

/-! What `dump` writes, as lines. The header map decides with its own comparison which of its entries are left out; a
    reader of the text decides by what stands before the colon of a line. -/

namespace MyHttp
namespace Http

open Lib.CString Lib.Lines

/-- What stands before the colon. -/
def fieldName (l : Bytes) : Bytes := l.takeWhile (· ≠ 58)

/-- The header lines of a name, in any letter case. -/
def named (key : String) (lines : List Bytes) : List Bytes :=
  lines.filter fun l => strcaseEquiv (fieldName l) (ascii key)

def connectionLine (close : Bool) : Bytes := ascii "connection: " ++ ascii (if close then "close" else "keep-alive")

def lengthLine (body : Bytes) : List Bytes :=
  if body = [] then [] else [ascii "content-length: " ++ decimalText body.length]

/-- `out` is the start line, header lines, a blank line and the body, with the connection line and the
    content-length line that there should be, and no other. -/
def WellFramed (start : Bytes) (close : Bool) (body out : Bytes) : Prop :=
  ∃ lines, IsLine start ∧ (∀ l ∈ lines, IsLine l ∧ l ≠ []) ∧
    out = start ++ lineEnd ++ unlines lines ++ lineEnd ++ body ∧
    named "connection" lines = [connectionLine close] ∧ named "content-length" lines = lengthLine body

/-- Names and values without CR and LF. -/
def Plain (headers : Headers) : Prop := ∀ h ∈ headers, IsLine h.1 ∧ IsLine h.2

/-- No entry makes a content-length line; and none a connection line but such as are left out. -/
def Framable (headers : Headers) : Prop :=
  ∀ h ∈ headers, strcaseEquiv (fieldName h.1) (ascii "content-length") = false ∧
    (strcaseEquiv (fieldName h.1) (ascii "connection") = true → strcaseEquiv h.1 (ascii "connection") = true)

/-! ### Texts -/

theorem digits_of_decimalText {n : Nat} {c : UInt8} (h : c ∈ decimalText n) : 48 ≤ c.toNat ∧ c.toNat ≤ 57 := by
  obtain ⟨d, hd, rfl⟩ := List.mem_map.mp h
  have hdigit : d.isDigit = true := by
    rw [Nat.toString_eq_repr, Nat.toList_repr] at hd
    exact Nat.isDigit_of_mem_toDigits (by decide) (by decide) hd
  simp only [Char.isDigit, Bool.and_eq_true, decide_eq_true_eq] at hdigit
  have hlow : 48 ≤ d.toNat := hdigit.1
  have hhigh : d.toNat ≤ 57 := hdigit.2
  rw [UInt8.toNat_ofNat', Nat.mod_eq_of_lt (by omega)]
  exact ⟨hlow, hhigh⟩

theorem digits_ofDigitChars {l : List Char} (h : ∀ c ∈ l, c.isDigit = true) (acc : Nat) :
    digits 10 acc (l.map fun c => UInt8.ofNat c.toNat) = Nat.ofDigitChars 10 l acc := by
  induction l generalizing acc with
  | nil => rfl
  | cons c l ih =>
    have hdigit := h c List.mem_cons_self
    simp only [Char.isDigit, Bool.and_eq_true, decide_eq_true_eq] at hdigit
    have hlow : 48 ≤ c.toNat := hdigit.1
    have hhigh : c.toNat ≤ 57 := hdigit.2
    have hbyte : (UInt8.ofNat c.toNat).toNat = c.toNat := by
      rw [UInt8.toNat_ofNat', Nat.mod_eq_of_lt (by omega)]
    have hvalue : digit (UInt8.ofNat c.toNat) = some (c.toNat - 48) := by
      rw [digit, if_pos, hbyte]
      simp only [UInt8.le_iff_toNat_le, hbyte, UInt8.reduceToNat]
      exact ⟨hlow, hhigh⟩
    have hlt : c.toNat - 48 < 10 := by omega
    rw [List.map_cons, digits, hvalue, Nat.ofDigitChars_cons]
    simp only [hlt, if_true]
    rw [ih (fun d hd => h d (List.mem_cons_of_mem c hd)), Nat.mul_comm]
    rfl

theorem decimalText_chars {n : Nat} : (toString n).toList = Nat.toDigits 10 n := by
  rw [Nat.toString_eq_repr, Nat.toList_repr]

theorem digits_decimalText {n : Nat} : digits 10 0 (decimalText n) = n := by
  rw [decimalText, ascii, decimalText_chars,
    digits_ofDigitChars fun c hc => Nat.isDigit_of_mem_toDigits (by decide) (by decide) hc,
    Nat.ofDigitChars_toDigits (by decide) (by decide)]

theorem decimalText_ne_nil {n : Nat} : decimalText n ≠ [] := by
  rw [decimalText, ascii, decimalText_chars]
  exact mt List.map_eq_nil_iff.mp Nat.toDigits_ne_nil

theorem isLine_decimalText (n : Nat) : IsLine (decimalText n) := by
  constructor
  · intro h
    exact absurd (digits_of_decimalText h).1 (by decide)
  · intro h
    exact absurd (digits_of_decimalText h).1 (by decide)

theorem isLine_methodString {m : Nat} {method : Bytes} (h : httpMethodToString m = some method) : IsLine method := by
  have hall : ∀ x ∈ methodMap, IsLine (ascii x.2) := by decide +kernel
  rw [httpMethodToString] at h
  split at h
  · cases h
    decide
  · obtain ⟨x, hx, rfl⟩ := Option.map_eq_some_iff.mp h
    exact hall x (List.mem_of_getElem? hx)

theorem isLine_statusString (s : Int) : IsLine (httpStatusToString s) := by
  have hall : ∀ x ∈ statusMap, IsLine (ascii x.2) := by decide +kernel
  rw [httpStatusToString]
  cases hs : statusMap.lookup s with
  | none => decide
  | some text =>
    obtain ⟨front, back, hmap, -⟩ := List.lookup_eq_some_iff.mp hs
    exact hall (s, text) (by rw [hmap]; exact List.mem_append_right front List.mem_cons_self)

theorem methodString_none {m : Nat} : httpMethodToString m = none ↔ m = 34 := by
  rw [httpMethodToString]
  have hlength : methodMap.length = 34 := rfl
  split
  · rename_i hgt
    constructor
    · intro h
      cases h
    · intro h
      omega
  · rw [Option.map_eq_none_iff, List.getElem?_eq_none_iff]
    omega

/-! ### Lines of a name -/

variable {start body out : Bytes} {close : Bool} {headers : Headers} {n v : Bytes} {key : String}

theorem fieldName_colon (n v : Bytes) : fieldName (n ++ 58 :: v) = fieldName n := by
  induction n with
  | nil => rfl
  | cons c n ih =>
    by_cases hc : c = 58
    · simp [fieldName, hc]
    · simpa [fieldName, hc] using ih

theorem caseless_fieldName (n : Bytes) : caseless (fieldName n) = (caseless n).takeWhile (· ≠ 58) := by
  induction n with
  | nil => rfl
  | cons c n ih =>
    by_cases hzero : c = 0
    · subst hzero
      rfl
    by_cases hcolon : c = 58
    · subst hcolon
      rfl
    have hfield : fieldName (c :: n) = c :: fieldName n := by simp [fieldName, hcolon]
    rw [hfield, caseless_cons, caseless_cons, if_neg hzero, if_neg hzero, ih, List.takeWhile_cons,
      if_pos (decide_eq_true (mt (tolower_eq_iff (by decide)).mp hcolon))]

/-- Names that are the same are the same up to a colon. -/
theorem fieldName_congr {k : Bytes} (h : strcaseEquiv n k = true) : strcaseEquiv (fieldName n) (fieldName k) = true := by
  rw [strcaseEquiv_iff] at h ⊢
  rw [caseless_fieldName, caseless_fieldName, h]

/-- An entry that is left out has the name of the line that stands for it. -/
theorem fieldName_connection (h : strcaseEquiv n (ascii "connection") = true) :
    strcaseEquiv (fieldName n) (ascii "connection") = true := fieldName_congr h

theorem not_both (h : strcaseEquiv n (ascii "connection") = true) : strcaseEquiv n (ascii "content-length") = false := by
  rw [strcaseEquiv_congr h]
  decide

theorem named_append (key : String) (ls ms : List Bytes) : named key (ls ++ ms) = named key ls ++ named key ms :=
  List.filter_append ls ms

theorem named_connectionLine (close : Bool) : named "connection" [connectionLine close] = [connectionLine close] ∧
    named "content-length" [connectionLine close] = [] := by
  cases close <;> decide

theorem named_lengthLine (body : Bytes) : named "connection" (lengthLine body) = [] ∧
    named "content-length" (lengthLine body) = lengthLine body := by
  have hfield : ∀ d, fieldName (ascii "content-length: " ++ d) = ascii "content-length" := fun d =>
    fieldName_colon (ascii "content-length") (32 :: d)
  rw [lengthLine]
  split
  · exact ⟨rfl, rfl⟩
  · have hother : strcaseEquiv (ascii "content-length") (ascii "connection") = false := by decide
    have hself : strcaseEquiv (ascii "content-length") (ascii "content-length") = true := by decide
    simp only [named, List.filter_cons, List.filter_nil, hfield, hother, hself]
    exact ⟨rfl, rfl⟩

/-- The lines that a header map adds, when an entry is written as its name, a colon and what `line` makes of it. -/
def mapLines (headers : Headers) (line : Bytes → Bytes) : List Bytes :=
  (headers.filter fun h => !strcaseEquiv h.1 (ascii "connection")).map fun h => h.1 ++ 58 :: line h.2

variable {line : Bytes → Bytes}

theorem mem_mapLines {l : Bytes} : l ∈ mapLines headers line ↔
    ∃ h ∈ headers, strcaseEquiv h.1 (ascii "connection") = false ∧ h.1 ++ 58 :: line h.2 = l := by
  simp only [mapLines, List.mem_map, List.mem_filter, Bool.not_eq_true', and_assoc]

theorem named_mapLines : named key (mapLines headers line) = [] ↔
    ∀ h ∈ headers, strcaseEquiv h.1 (ascii "connection") = false → strcaseEquiv (fieldName h.1) (ascii key) = false := by
  rw [named, List.filter_eq_nil_iff]
  constructor
  · intro h x hx hkept
    have hline := h _ (mem_mapLines.mpr ⟨x, hx, hkept, rfl⟩)
    rwa [fieldName_colon, Bool.not_eq_true] at hline
  · intro h l hl
    obtain ⟨x, hx, hkept, rfl⟩ := mem_mapLines.mp hl
    rw [fieldName_colon, h x hx hkept]
    decide

/-- The map adds no connection line and no content-length line exactly when it is framable. -/
theorem framable_iff (line : Bytes → Bytes) : Framable headers ↔
    named "connection" (mapLines headers line) = [] ∧ named "content-length" (mapLines headers line) = [] := by
  rw [named_mapLines, named_mapLines]
  constructor
  · intro h
    refine ⟨fun x hx hkept => ?_, fun x hx _ => (h x hx).1⟩
    by_contra hname
    rw [(h x hx).2 (Bool.not_eq_false _ ▸ hname)] at hkept
    cases hkept
  · rintro ⟨hconnection, hlength⟩ x hx
    cases hkept : strcaseEquiv x.1 (ascii "connection") with
    | true => exact ⟨not_both (fieldName_connection hkept), fun _ => rfl⟩
    | false =>
      refine ⟨hlength x hx hkept, fun hname => ?_⟩
      rw [hconnection x hx hkept] at hname
      cases hname

theorem isLine_mapLines (hplain : Plain headers) (hline : ∀ v, IsLine v → IsLine (line v)) :
    ∀ l ∈ mapLines headers line, IsLine l ∧ l ≠ [] := by
  intro l hl
  obtain ⟨h, hh, -, rfl⟩ := mem_mapLines.mp hl
  obtain ⟨hname, hvalue⟩ := hplain h hh
  have hcolon : IsLine [58] := by decide
  refine ⟨?_, List.append_ne_nil_of_right_ne_nil _ (List.cons_ne_nil _ _)⟩
  exact isLine_append.mpr ⟨hname, isLine_append.mpr ⟨hcolon, hline h.2 hvalue⟩⟩

theorem isLine_connectionLine (close : Bool) : IsLine (connectionLine close) ∧ connectionLine close ≠ [] := by
  cases close <;> decide

theorem isLine_lengthLine (body : Bytes) : ∀ l ∈ lengthLine body, IsLine l ∧ l ≠ [] := by
  intro l hl
  rw [lengthLine] at hl
  split at hl
  · cases hl
  · rw [List.mem_singleton.mp hl]
    exact ⟨isLine_append.mpr ⟨by decide, isLine_decimalText _⟩, List.append_ne_nil_of_left_ne_nil (by decide) _⟩

/-- A text that is written line by line is well framed exactly when its start line is a line and the map is framable. -/
theorem wellFramed_iff (before after : List Bytes) (hplain : Plain headers) (hline : ∀ v, IsLine v → IsLine (line v))
    (hmap : before ++ after = mapLines headers line)
    (hout : out = start ++ lineEnd ++ unlines (before ++ [connectionLine close] ++ after ++ lengthLine body) ++
      lineEnd ++ body) : WellFramed start close body out ↔ IsLine start ∧ Framable headers := by
  have hlines : ∀ l ∈ before ++ [connectionLine close] ++ after ++ lengthLine body, IsLine l ∧ l ≠ [] := by
    have hboth := isLine_mapLines hplain hline
    rw [← hmap] at hboth
    intro l hl
    simp only [List.mem_append, List.mem_singleton] at hl
    rcases hl with ((hl | rfl) | hl) | hl
    · exact hboth l (List.mem_append_left after hl)
    · exact isLine_connectionLine close
    · exact hboth l (List.mem_append_right before hl)
    · exact isLine_lengthLine body l hl
  have hconnection : named "connection" (before ++ [connectionLine close] ++ after ++ lengthLine body) =
      [connectionLine close] ↔ named "connection" (before ++ after) = [] := by
    simp only [named_append, (named_connectionLine close).1, (named_lengthLine body).1, List.append_nil]
    rw [← List.length_eq_zero_iff, List.length_append]
    constructor
    · intro h
      have hlength := congrArg List.length h
      simp only [List.length_append, List.length_singleton] at hlength
      omega
    · intro h
      rw [List.length_eq_zero_iff.mp (by omega : (named "connection" before).length = 0),
        List.length_eq_zero_iff.mp (by omega : (named "connection" after).length = 0)]
      rfl
  have hlength : named "content-length" (before ++ [connectionLine close] ++ after ++ lengthLine body) =
      lengthLine body ↔ named "content-length" (before ++ after) = [] := by
    simp only [named_append, (named_connectionLine close).2, (named_lengthLine body).2, List.append_nil]
    exact List.append_left_eq_self
  rw [framable_iff line, ← hmap]
  constructor
  · rintro ⟨lines, hstart, hall, heq, hone, hlen⟩
    have hflat : ∀ ls, start ++ lineEnd ++ unlines ls ++ lineEnd ++ body =
        start ++ (lineEnd ++ (unlines ls ++ (lineEnd ++ body))) := fun ls => by simp only [List.append_assoc]
    rw [hout, hflat, hflat] at heq
    obtain ⟨rfl, -⟩ := unlines_unique hlines hall
      (List.append_cancel_left (List.append_cancel_left heq))
    exact ⟨hstart, hconnection.mp hone, hlength.mp hlen⟩
  · rintro ⟨hstart, hone, hlen⟩
    exact ⟨_, hstart, hlines, hout, hconnection.mpr hone, hlength.mpr hlen⟩

/-! ### The two messages -/

theorem isLine_request (r : HttpRequest) {method : Bytes} (hm : IsLine method) :
    IsLine (r.startLine method) ↔ IsLine r.path ∧ IsLine r.query ∧ IsLine r.fragment := by
  have hblank : IsLine (ascii " ") := by decide
  have hhttp : IsLine (ascii " HTTP/") := by decide
  have hdot : IsLine (ascii ".") := by decide
  have hquery : IsLine (if r.query = [] then [] else ascii "?") := by split <;> decide
  have hfragment : IsLine (if r.fragment = [] then [] else ascii "#") := by split <;> decide
  simp only [HttpRequest.startLine, isLine_append, hm, hblank, hhttp, hdot, hquery, hfragment, isLine_decimalText,
    and_true, true_and, and_assoc]

theorem ascii_lineEnd : ascii "\r\n" = lineEnd := by decide

/-- The body after the header lines, as `dump` writes it. -/
theorem dump_tail (body : Bytes) :
    (if body = [] then ascii "\r\n"
      else ascii "content-length: " ++ decimalText body.length ++ ascii "\r\n\r\n" ++ body) =
    unlines (lengthLine body) ++ lineEnd ++ body := by
  have htwice : ascii "\r\n\r\n" = lineEnd ++ lineEnd := by decide
  rw [lengthLine, ascii_lineEnd, htwice]
  split
  · rename_i hnil
    rw [hnil, List.append_nil]
    rfl
  · simp only [unlines, List.flatMap_cons, List.flatMap_nil, List.append_nil, List.append_assoc]

theorem headerLines_eq (r : HttpRequest) : r.headerLines = connectionLine r.close :: mapLines r.headers id := by
  have hcolon : ascii ":" = [58] := by decide
  simp only [HttpRequest.headerLines, mapLines, hcolon, List.append_assoc, List.singleton_append, id]
  rfl

theorem dumpAs_eq (r : HttpRequest) {m : Nat} {method : Bytes} (h : httpMethodToString m = some method) :
    r.dumpAs m = some (r.startLine method ++ lineEnd ++
      unlines ([] ++ [connectionLine r.close] ++ mapLines r.headers id ++ lengthLine r.body) ++ lineEnd ++ r.body) := by
  rw [HttpRequest.dumpAs, h, Option.map_some, dump_tail, headerLines_eq, ascii_lineEnd, unlines_append _ (lengthLine _)]
  simp only [unlines, List.nil_append, List.singleton_append, List.append_assoc]

namespace HttpResponse

def startLine (r : HttpResponse) : Bytes :=
  ascii "HTTP/" ++ decimalText (r.version / 16) ++ ascii "." ++ decimalText (r.version % 16) ++ ascii " " ++
    decimalText (r.status % 2 ^ 32).toNat ++ ascii " " ++
    (if r.reason = [] then httpStatusToString r.status else r.reason)

theorem isLine_startLine (r : HttpResponse) : IsLine r.startLine ↔ IsLine r.reason := by
  have hblank : IsLine (ascii " ") := by decide
  have hhttp : IsLine (ascii "HTTP/") := by decide
  have hdot : IsLine (ascii ".") := by decide
  have hreason : IsLine (if r.reason = [] then httpStatusToString r.status else r.reason) ↔ IsLine r.reason := by
    split
    · rename_i hnil
      rw [hnil]
      exact iff_of_true (isLine_statusString r.status) isLine_nil
    · exact Iff.rfl
  simp only [startLine, isLine_append, hblank, hhttp, hdot, isLine_decimalText, hreason, and_true, true_and]

theorem dump_eq (r : HttpResponse) : r.dump = r.startLine ++ lineEnd ++
    unlines (mapLines r.headers (32 :: ·) ++ [connectionLine r.close] ++ [] ++ lengthLine r.body) ++ lineEnd ++ r.body := by
  have hcolon : ascii ": " = [58, 32] := by decide
  have hlines : r.headerLines.flatMap (fun h => h.1 ++ ascii ": " ++ h.2 ++ ascii "\r\n") =
      unlines (mapLines r.headers (32 :: ·) ++ [connectionLine r.close]) := by
    rw [unlines_append, headerLines, List.flatMap_append]
    refine congrArg₂ (· ++ ·) ?_ ?_
    · simp only [unlines, mapLines, List.flatMap_map, hcolon, ascii_lineEnd, List.append_assoc, List.cons_append,
        List.nil_append]
    · simp only [unlines, List.flatMap_cons, List.flatMap_nil, List.append_nil, ascii_lineEnd]
      rfl
  rw [dump, dump_tail, hlines, List.append_nil, unlines_append _ (lengthLine _), ascii_lineEnd]
  simp only [startLine, List.append_assoc]

end HttpResponse

/-- What `dump` writes is framed as it should be exactly when no entry of the header map says otherwise, and what stands
    in the start line does not end it. The number behind the last method has no string. -/
theorem dump_framed_iff (r : HttpRequest) (m : Nat) (rsp : HttpResponse) :
    (Plain r.headers →
      ((∃ method out, httpMethodToString m = some method ∧ r.dumpAs m = some out ∧
          WellFramed (r.startLine method) r.close r.body out) ↔
        m ≠ 34 ∧ (IsLine r.path ∧ IsLine r.query ∧ IsLine r.fragment) ∧ Framable r.headers)) ∧
    (Plain rsp.headers →
      (WellFramed rsp.startLine rsp.close rsp.body rsp.dump ↔ IsLine rsp.reason ∧ Framable rsp.headers)) := by
  constructor
  · intro hplain
    have hframed : ∀ method, httpMethodToString m = some method → ∃ out, r.dumpAs m = some out ∧
        (WellFramed (r.startLine method) r.close r.body out ↔
          (IsLine r.path ∧ IsLine r.query ∧ IsLine r.fragment) ∧ Framable r.headers) := by
      intro method hm
      refine ⟨_, dumpAs_eq r hm, ?_⟩
      rw [wellFramed_iff [] (mapLines r.headers id) hplain (fun _ hv => hv) rfl rfl, isLine_request r (isLine_methodString hm)]
    constructor
    · rintro ⟨method, out, hm, hout, hwell⟩
      obtain ⟨out', hout', hiff⟩ := hframed method hm
      obtain rfl := Option.some.inj (hout.symm.trans hout')
      refine ⟨fun h34 => ?_, hiff.mp hwell⟩
      rw [methodString_none.mpr h34] at hm
      cases hm
    · rintro ⟨h34, hlines⟩
      obtain ⟨method, hm⟩ := Option.ne_none_iff_exists'.mp (mt methodString_none.mp h34)
      obtain ⟨out, hout, hiff⟩ := hframed method hm
      exact ⟨method, out, hm, hout, hiff.mpr hlines⟩
  · intro hplain
    have hline : ∀ v, IsLine v → IsLine (32 :: v) := fun v hv =>
      isLine_append.mpr ⟨(by decide : IsLine [32]), hv⟩
    rw [wellFramed_iff (mapLines rsp.headers (32 :: ·)) [] hplain hline (List.append_nil _) rsp.dump_eq,
      rsp.isLine_startLine]

instance (headers : Headers) : Decidable (Plain headers) := by unfold Plain; infer_instance

instance (headers : Headers) : Decidable (Framable headers) := by unfold Framable; infer_instance

def helloRequest : HttpRequest :=
  { HttpRequest.new with body := ascii "hi", headers := [(ascii "Connection", ascii "x"), (ascii "Host", ascii "a")] }

def helloResponse : HttpResponse := { HttpResponse.new with body := ascii "hi", headers := helloRequest.headers }

theorem dump_framed_hello :
    (∃ method out, httpMethodToString 1 = some method ∧ helloRequest.dumpAs 1 = some out ∧
      WellFramed (helloRequest.startLine method) helloRequest.close helloRequest.body out) ∧
    WellFramed helloResponse.startLine helloResponse.close helloResponse.body helloResponse.dump := by
  obtain ⟨hrequest, hresponse⟩ := dump_framed_iff helloRequest 1 helloResponse
  exact ⟨(hrequest (by decide)).mpr (by decide), (hresponse (by decide)).mpr (by decide)⟩

/-- A `GET` without a body whose map holds a content-length, as a parsed message may. -/
def lengthRequest : HttpRequest := { HttpRequest.new with headers := [(ascii "Content-Length", ascii "5")] }

theorem dump_framed_fails : ¬∀ (r : HttpRequest) (m : Nat), m < 34 → Plain r.headers →
    ∃ method out, httpMethodToString m = some method ∧ r.dumpAs m = some out ∧
      WellFramed (r.startLine method) r.close r.body out := by
  intro h
  obtain ⟨method, out, hm, hout, hwell⟩ := h lengthRequest 1 (by decide) (by decide)
  obtain rfl := Option.some.inj (hout.symm.trans (dumpAs_eq lengthRequest hm))
  have hframable := ((wellFramed_iff [] (mapLines lengthRequest.headers id) (by decide) (fun _ hv => hv) rfl rfl).mp hwell).2
  exact absurd hframable (by decide)

end Http
end MyHttp

import MyHttp.Http.Http11Table
import MyHttp.Http.Message
import MyHttp.Lib.Machine
import MyHttp.Lib.Pieces
import Mathlib.Tactic.SplitIfs

/-! The parser of requests (`http11_parser.rl`, `HttpRequestParser`) with its callbacks. -/

namespace MyHttp
namespace Http

open Lib.CString Lib.Machine Lib.Scan

namespace Http11

variable {relaxed : Bool} {cs cs' final : Nat} {bytes : Bytes}

/-- No edge leads to the error state, and the final states are reached with `done`. -/
theorem table_targets : ∀ relaxed, ∀ row ∈ table relaxed, ∀ e ∈ row.2,
    e.target ≠ 0 ∧ (348 ≤ e.target ↔ e.actions.any (· = .done) = true) := by decide +kernel

theorem next_target {c : UInt8} {e : Edge RequestAction}
    (h : next (table relaxed) cs c = some e) :
    e.target ≠ 0 ∧ (348 ≤ e.target ↔ e.actions.any (· = .done) = true) := by
  obtain ⟨es, hrow, he, -⟩ := mem_of_next h
  exact table_targets relaxed _ hrow _ he

/-- Before its end the scan is neither in error nor final. -/
theorem through_state (h : through (table relaxed) (· = .done) cs bytes = some cs') (hcs : cs ≠ 0 ∧ cs < 348) :
    cs' ≠ 0 ∧ cs' < 348 := by
  refine through_keeps (P := fun cs => cs ≠ 0 ∧ cs < 348) (fun cs c e he hs => ?_) h hcs
  obtain ⟨hne, hfinal⟩ := next_target he
  refine ⟨hne, Nat.lt_of_not_le fun hle => ?_⟩
  rw [hfinal.mp hle] at hs
  cases hs

theorem final_of_accepts (h : Accepts (table relaxed) (· = .done) cs bytes final) : 348 ≤ final := by
  obtain ⟨_, _, _, e, _, _, he, hstop, rfl⟩ := h
  exact (next_target he).2.mpr hstop

end Http11

/-- `struct http_parser`. -/
structure HttpParser where
  cs : Nat
  bodyStart : Nat
  contentLen : Int
  nread : Nat
  mark : Nat
  fieldStart : Nat
  fieldLen : Nat
  queryStart : Nat
  xmlSent : Bool
  jsonSent : Bool
  uriRelaxed : Bool
deriving DecidableEq, Repr

structure HttpRequestParser where
  parser : HttpParser
  data : HttpRequest
  error : Nat
  /-- a callback has thrown; what the scan does after it does not count -/
  thrown : Bool
deriving DecidableEq, Repr

namespace HttpRequestParser

/-- The constructor. `http_parser_init` leaves `uri_relaxed` as it is. -/
def new (uriRelaxed : Bool) : HttpRequestParser := ⟨⟨1, 0, 0, 0, 0, 0, 0, 0, false, false, uriRelaxed⟩, .new, 0, false⟩

def onRequestMethod (r : HttpRequestParser) (at_ : Bytes) : HttpRequestParser :=
  match charsToHttpMethod at_ with
  | some method => { r with data := { r.data with method } }
  | none => { r with error := 1000 }

def onRequestFragment (r : HttpRequestParser) (at_ : Bytes) (length : Nat) : HttpRequestParser :=
  { r with data := { r.data with fragment := at_.take length } }

def onRequestPath (r : HttpRequestParser) (at_ : Bytes) (length : Nat) : HttpRequestParser :=
  { r with data := { r.data with path := at_.take length } }

/-- The constructor of the string throws when the length is a negative number. -/
def onRequestQuery (r : HttpRequestParser) (at_ : Bytes) (length : Int) : HttpRequestParser :=
  if length < 0 then { r with thrown := true }
  else { r with data := { r.data with query := at_.take length.toNat } }

/-- The version that `on_request_version` reads. -/
def chars2Version (at_ : Bytes) (length : Nat) : Option Nat :=
  if strncmpEq at_ (ascii "HTTP/1.1") length then some 0x11
  else if strncmpEq at_ (ascii "HTTP/1.0") length then some 0x10
  else none

def onRequestVersion (r : HttpRequestParser) (at_ : Bytes) (length : Nat) : HttpRequestParser :=
  match chars2Version at_ length with
  | some version => { r with data := { r.data with version } }
  | none => { r with error := 1001 }

def onRequestHttpField (r : HttpRequestParser) (field : Bytes) (flen : Nat) (value : Bytes) (vlen : Nat) :
    HttpRequestParser :=
  if flen = 0 then { r with error := 1002 }
  else { r with data := { r.data with headers := r.data.headers.set (field.take flen) (value.take vlen) } }

/-- One action at position `p` of the buffer. The callbacks of the whole URI and of the end of the head do nothing. -/
def act (r : HttpRequestParser) (buffer : Bytes) (a : RequestAction) (p : Nat) : HttpRequestParser :=
  let parser := r.parser
  let mark := buffer.drop parser.mark
  match a with
  | .mark => { r with parser := { parser with mark := p } }
  | .startField => { r with parser := { parser with fieldStart := p } }
  | .writeField => { r with parser := { parser with fieldLen := p - parser.fieldStart } }
  | .writeValue => r.onRequestHttpField (buffer.drop parser.fieldStart) parser.fieldLen mark (p - parser.mark)
  | .requestMethod => r.onRequestMethod mark
  | .requestUri => r
  | .fragment => r.onRequestFragment mark (p - parser.mark)
  | .startQuery => { r with parser := { parser with queryStart := p } }
  | .queryString => r.onRequestQuery (buffer.drop parser.queryStart) (p - parser.queryStart)
  | .httpVersion => r.onRequestVersion mark (p - parser.mark)
  | .requestPath => r.onRequestPath mark (p - parser.mark)
  | .xml => { r with parser := { parser with xmlSent := true } }
  | .json => { r with parser := { parser with jsonSent := true } }
  | .done =>
    if parser.xmlSent || parser.jsonSent then
      { r with parser := { parser with bodyStart := parser.mark, contentLen := int32 (p - parser.mark + 1) } }
    else { r with parser := { parser with bodyStart := p + 1 } }

/-- `http_parser_execute` on the bytes of the buffer; there are some. -/
def run (r : HttpRequestParser) (buffer : Bytes) : HttpRequestParser :=
  let x := exec (Http11.table r.parser.uriRelaxed) (· = .done) (fun a p r => r.act buffer a p) 0 r.parser.cs
    { r with parser := { r.parser with nread := 0, mark := 0, fieldLen := 0, fieldStart := 0 } } buffer
  { x.store with parser := { x.store.parser with cs := x.cs, nread := x.pos } }

/-- `execute`. It returns how many bytes were consumed. -/
def execute (r : HttpRequestParser) (buffer : Bytes) : HttpRequestParser × Nat :=
  let r := r.run buffer
  (r, r.parser.nread)

def hasError (r : HttpRequestParser) : Bool := r.error ≠ 0 || r.parser.cs = 0

/-- `isFinished` of a parser without error. -/
def isFinished (r : HttpRequestParser) : Bool := 348 ≤ r.parser.cs

def getContentLength (r : HttpRequestParser) : Nat := getHeaderAs r.data.headers (ascii "content-length")

variable {r : HttpRequestParser} {buffer at_ field value : Bytes} {p length flen vlen : Nat} {a : RequestAction}

@[simp] theorem parser_onRequestMethod : (r.onRequestMethod at_).parser = r.parser := by
  unfold onRequestMethod
  split <;> rfl

@[simp] theorem parser_onRequestQuery {length : Int} : (r.onRequestQuery at_ length).parser = r.parser := by
  unfold onRequestQuery
  split <;> rfl

@[simp] theorem parser_onRequestVersion : (r.onRequestVersion at_ length).parser = r.parser := by
  unfold onRequestVersion
  split <;> rfl

@[simp] theorem parser_onRequestHttpField : (r.onRequestHttpField field flen value vlen).parser = r.parser := by
  unfold onRequestHttpField
  split <;> rfl

/-- Only the constructor sets the close flag of a request, and no callback writes a body. -/
theorem data_act : (r.act buffer a p).data.close = r.data.close ∧ (r.act buffer a p).data.body = r.data.body := by
  cases a with
  | writeValue =>
    simp only [act, onRequestHttpField]
    split <;> exact ⟨rfl, rfl⟩
  | requestMethod =>
    simp only [act, onRequestMethod]
    split <;> exact ⟨rfl, rfl⟩
  | queryString =>
    simp only [act, onRequestQuery]
    split <;> exact ⟨rfl, rfl⟩
  | httpVersion =>
    simp only [act, onRequestVersion]
    split <;> exact ⟨rfl, rfl⟩
  | done =>
    simp only [act]
    split <;> exact ⟨rfl, rfl⟩
  | _ => exact ⟨rfl, rfl⟩

theorem data_run : (r.run buffer).data.close = r.data.close ∧ (r.run buffer).data.body = r.data.body := by
  refine exec_keeps (P := fun r' : HttpRequestParser => r'.data.close = r.data.close ∧ r'.data.body = r.data.body)
    (fun a q r' _ hr => ?_) ⟨rfl, rfl⟩
  exact ⟨data_act.1.trans hr.1, data_act.2.trans hr.2⟩

theorem uriRelaxed_act :
    (r.act buffer a p).parser.uriRelaxed = r.parser.uriRelaxed := by
  cases a with
  | requestMethod => exact congrArg _ parser_onRequestMethod
  | queryString => exact congrArg _ parser_onRequestQuery
  | httpVersion => exact congrArg _ parser_onRequestVersion
  | writeValue => exact congrArg _ parser_onRequestHttpField
  | done =>
    simp only [act]
    split <;> rfl
  | _ => rfl

theorem uriRelaxed_run :
    (r.run buffer).parser.uriRelaxed = r.parser.uriRelaxed :=
  exec_keeps (P := fun r' : HttpRequestParser => r'.parser.uriRelaxed = r.parser.uriRelaxed)
    (fun _ _ _ _ hr => uriRelaxed_act.trans hr) rfl

/-- The registers as each call finds them. -/
def cleared (r : HttpRequestParser) : HttpRequestParser :=
  { r with parser := { r.parser with nread := 0, mark := 0, fieldLen := 0, fieldStart := 0 } }

/-- A call consumes all the bytes, or it comes to an error, or to the end of the head. -/
theorem run_cases (r : HttpRequestParser) (buffer : Bytes) :
    (through (Http11.table r.parser.uriRelaxed) (· = .done) r.parser.cs buffer = some (r.run buffer).parser.cs ∧
        (r.run buffer).parser.nread = buffer.length) ∨
      (r.run buffer).parser.cs = 0 ∨
      ∃ xs ys, buffer = xs ++ ys ∧
        Accepts (Http11.table r.parser.uriRelaxed) (· = .done) r.parser.cs xs (r.run buffer).parser.cs ∧
        (r.run buffer).parser.nread = xs.length := by
  have hcs : (r.run buffer).parser.cs = (exec (Http11.table r.parser.uriRelaxed) (· = .done)
      (fun a p r => act r buffer a p) 0 r.parser.cs r.cleared buffer).cs := rfl
  have hnread : (r.run buffer).parser.nread = (exec (Http11.table r.parser.uriRelaxed) (· = .done)
      (fun a p r => act r buffer a p) 0 r.parser.cs r.cleared buffer).pos := rfl
  rcases exec_cases (Http11.table r.parser.uriRelaxed) (· = .done) (fun a p r => act r buffer a p) 0 r.parser.cs r.cleared
    buffer with ⟨cs', h⟩ | h | ⟨xs, ys, heq, h⟩
  · rw [hcs, hnread, (exec_of_through h).1, (exec_of_through h).2, Nat.zero_add]
    exact Or.inl ⟨h, rfl⟩
  · exact Or.inr (Or.inl h)
  · refine Or.inr (Or.inr ⟨xs, ys, heq, h, ?_⟩)
    rw [hnread, heq, h.exec_append.2, Nat.zero_add]

end HttpRequestParser
end Http
end MyHttp

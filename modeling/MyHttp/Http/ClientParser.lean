import MyHttp.Http.Message
import MyHttp.Lib.Machine
import MyHttp.Lib.Scan
import Mathlib.Tactic.SplitIfs

/-! The parser of responses and chunk headers (`httpclient_parser.rl` as compiled, `HttpResponseParser`). The rows of
    the table are the cases of the compiled machine. -/

namespace MyHttp
namespace Http

open Lib.CString Lib.Machine Lib.Scan

/-- The actions of the machine; `start_value` is `mark`. -/
inductive ClientAction where
  | mark
  | startField
  | writeField
  | writeContentLen
  | writeConnectionClose
  | writeValue
  | reasonPhrase
  | statusCode
  | httpVersion
  | chunkSize
  | transChunked
  | done
deriving DecidableEq, Repr

namespace Client

def token : CharClass := [(33, 33), (35, 39), (42, 43), (45, 46), (48, 57), (65, 90), (94, 122), (124, 124), (126, 126)]

def digit : CharClass := [(48, 57)]

def xdigit : CharClass := [(48, 57), (65, 70), (97, 102)]

def space : CharClass := [(9, 13), (32, 32)]

/-- The states with their edges. State 0 is the error; 120, 121, 122 and 123 are final. -/
def table : Table ClientAction :=
  [(1, [⟨byte 72, 8, [.mark]⟩, ⟨xdigit, 2, [.mark]⟩]),
  (2, [⟨byte 10, 120, [.chunkSize, .done]⟩, ⟨byte 13, 3, [.chunkSize]⟩, ⟨byte 59, 4, [.chunkSize]⟩, ⟨xdigit, 2, []⟩]),
  (3, [⟨byte 10, 120, [.done]⟩]),
  (4, [⟨token, 5, [.startField]⟩]),
  (5, [⟨byte 10, 120, [.writeField, .mark, .writeValue, .done]⟩, ⟨byte 13, 3, [.writeField, .mark, .writeValue]⟩,
    ⟨byte 59, 4, [.writeField, .mark, .writeValue]⟩, ⟨byte 61, 6, [.writeField, .mark]⟩, ⟨token, 5, []⟩]),
  (6, [⟨token, 7, [.mark]⟩]),
  (7, [⟨byte 10, 120, [.writeValue, .done]⟩, ⟨byte 13, 3, [.writeValue]⟩, ⟨byte 59, 4, [.writeValue]⟩,
    ⟨token, 7, []⟩]),
  (8, [⟨byte 84, 9, []⟩]),
  (9, [⟨byte 84, 10, []⟩]),
  (10, [⟨byte 80, 11, []⟩]),
  (11, [⟨byte 47, 12, []⟩]),
  (12, [⟨digit, 13, []⟩]),
  (13, [⟨byte 46, 14, []⟩, ⟨digit, 13, []⟩]),
  (14, [⟨digit, 15, []⟩]),
  (15, [⟨byte 32, 16, [.httpVersion]⟩, ⟨digit, 15, []⟩]),
  (16, [⟨digit, 17, [.mark]⟩]),
  (17, [⟨byte 32, 18, [.statusCode]⟩, ⟨digit, 17, []⟩]),
  (18, [⟨[(0, 9), (11, 255)], 19, [.mark]⟩]),
  (19, [⟨byte 10, 20, [.reasonPhrase]⟩, ⟨byte 13, 24, [.reasonPhrase]⟩, ⟨any, 19, []⟩]),
  (20, [⟨byte 10, 120, [.done]⟩, ⟨byte 13, 3, []⟩, ⟨letter 67, 25, [.startField]⟩, ⟨letter 84, 44, [.startField]⟩,
    ⟨token, 21, [.startField]⟩]),
  (21, [⟨byte 58, 22, [.writeField]⟩, ⟨token, 21, []⟩]),
  (22, [⟨byte 10, 20, [.mark, .writeValue]⟩, ⟨byte 13, 24, [.mark, .writeValue]⟩, ⟨space, 22, [.mark]⟩,
    ⟨any, 23, [.mark]⟩]),
  (23, [⟨byte 10, 20, [.writeValue]⟩, ⟨byte 13, 24, [.writeValue]⟩, ⟨any, 23, []⟩]),
  (24, [⟨byte 10, 20, []⟩]),
  (25, [⟨byte 58, 22, [.writeField]⟩, ⟨letter 79, 26, []⟩, ⟨token, 21, []⟩]),
  (26, [⟨byte 58, 22, [.writeField]⟩, ⟨letter 78, 27, []⟩, ⟨token, 21, []⟩]),
  (27, [⟨byte 58, 22, [.writeField]⟩, ⟨letter 78, 28, []⟩, ⟨letter 84, 101, []⟩, ⟨token, 21, []⟩]),
  (28, [⟨byte 58, 22, [.writeField]⟩, ⟨letter 69, 29, []⟩, ⟨token, 21, []⟩]),
  (29, [⟨byte 58, 22, [.writeField]⟩, ⟨letter 67, 30, []⟩, ⟨token, 21, []⟩]),
  (30, [⟨byte 58, 22, [.writeField]⟩, ⟨letter 84, 31, []⟩, ⟨token, 21, []⟩]),
  (31, [⟨byte 58, 22, [.writeField]⟩, ⟨letter 73, 32, []⟩, ⟨token, 21, []⟩]),
  (32, [⟨byte 58, 22, [.writeField]⟩, ⟨letter 79, 33, []⟩, ⟨token, 21, []⟩]),
  (33, [⟨byte 58, 22, [.writeField]⟩, ⟨letter 78, 34, []⟩, ⟨token, 21, []⟩]),
  (34, [⟨byte 58, 35, [.writeField]⟩, ⟨token, 21, []⟩]),
  (35, [⟨byte 10, 36, [.mark, .writeValue]⟩, ⟨byte 13, 95, [.mark, .writeValue]⟩, ⟨letter 67, 96, [.mark]⟩,
    ⟨space, 35, [.mark]⟩, ⟨any, 23, [.mark]⟩]),
  (36, [⟨byte 10, 122, [.done]⟩, ⟨byte 13, 89, []⟩, ⟨letter 67, 90, [.startField]⟩, ⟨letter 84, 44, [.startField]⟩,
    ⟨space, 37, []⟩, ⟨token, 21, [.startField]⟩]),
  (37, [⟨letter 67, 38, []⟩, ⟨space, 37, []⟩]),
  (38, [⟨letter 76, 39, []⟩]),
  (39, [⟨letter 79, 40, []⟩]),
  (40, [⟨letter 83, 41, []⟩]),
  (41, [⟨letter 69, 42, []⟩]),
  (42, [⟨byte 10, 43, []⟩, ⟨byte 13, 88, []⟩]),
  (43, [⟨byte 10, 120, [.writeConnectionClose, .done]⟩, ⟨byte 13, 3, [.writeConnectionClose]⟩,
    ⟨letter 67, 25, [.writeConnectionClose, .startField]⟩, ⟨letter 84, 44, [.writeConnectionClose, .startField]⟩,
    ⟨token, 21, [.writeConnectionClose, .startField]⟩]),
  (44, [⟨byte 58, 22, [.writeField]⟩, ⟨letter 82, 45, []⟩, ⟨token, 21, []⟩]),
  (45, [⟨byte 58, 22, [.writeField]⟩, ⟨letter 65, 46, []⟩, ⟨token, 21, []⟩]),
  (46, [⟨byte 58, 22, [.writeField]⟩, ⟨letter 78, 47, []⟩, ⟨token, 21, []⟩]),
  (47, [⟨byte 58, 22, [.writeField]⟩, ⟨letter 83, 48, []⟩, ⟨token, 21, []⟩]),
  (48, [⟨byte 58, 22, [.writeField]⟩, ⟨letter 70, 49, []⟩, ⟨token, 21, []⟩]),
  (49, [⟨byte 58, 22, [.writeField]⟩, ⟨letter 69, 50, []⟩, ⟨token, 21, []⟩]),
  (50, [⟨byte 58, 22, [.writeField]⟩, ⟨letter 82, 51, []⟩, ⟨token, 21, []⟩]),
  (51, [⟨byte 45, 52, []⟩, ⟨byte 58, 22, [.writeField]⟩, ⟨token, 21, []⟩]),
  (52, [⟨byte 58, 22, [.writeField]⟩, ⟨letter 69, 53, []⟩, ⟨token, 21, []⟩]),
  (53, [⟨byte 58, 22, [.writeField]⟩, ⟨letter 78, 54, []⟩, ⟨token, 21, []⟩]),
  (54, [⟨byte 58, 22, [.writeField]⟩, ⟨letter 67, 55, []⟩, ⟨token, 21, []⟩]),
  (55, [⟨byte 58, 22, [.writeField]⟩, ⟨letter 79, 56, []⟩, ⟨token, 21, []⟩]),
  (56, [⟨byte 58, 22, [.writeField]⟩, ⟨letter 68, 57, []⟩, ⟨token, 21, []⟩]),
  (57, [⟨byte 58, 22, [.writeField]⟩, ⟨letter 73, 58, []⟩, ⟨token, 21, []⟩]),
  (58, [⟨byte 58, 22, [.writeField]⟩, ⟨letter 78, 59, []⟩, ⟨token, 21, []⟩]),
  (59, [⟨byte 58, 22, [.writeField]⟩, ⟨letter 71, 60, []⟩, ⟨token, 21, []⟩]),
  (60, [⟨byte 58, 61, [.writeField]⟩, ⟨token, 21, []⟩]),
  (61, [⟨byte 10, 62, [.mark, .writeValue]⟩, ⟨byte 13, 80, [.mark, .writeValue]⟩, ⟨letter 67, 81, [.mark]⟩,
    ⟨space, 61, [.mark]⟩, ⟨any, 23, [.mark]⟩]),
  (62, [⟨byte 10, 121, [.done]⟩, ⟨byte 13, 72, []⟩, ⟨letter 67, 73, [.mark, .startField]⟩,
    ⟨letter 84, 44, [.startField]⟩, ⟨space, 63, []⟩, ⟨token, 21, [.startField]⟩]),
  (63, [⟨letter 67, 64, [.mark]⟩, ⟨space, 63, []⟩]),
  (64, [⟨letter 72, 65, []⟩]),
  (65, [⟨letter 85, 66, []⟩]),
  (66, [⟨letter 78, 67, []⟩]),
  (67, [⟨letter 75, 68, []⟩]),
  (68, [⟨letter 69, 69, []⟩]),
  (69, [⟨letter 68, 70, []⟩]),
  (70, [⟨byte 10, 20, [.writeValue, .transChunked]⟩, ⟨byte 13, 71, [.writeValue]⟩]),
  (71, [⟨byte 10, 20, [.transChunked]⟩]),
  (72, [⟨byte 10, 121, [.done]⟩, ⟨letter 67, 64, [.mark]⟩, ⟨space, 63, []⟩]),
  (73, [⟨byte 58, 22, [.writeField]⟩, ⟨letter 72, 74, []⟩, ⟨letter 79, 26, []⟩, ⟨token, 21, []⟩]),
  (74, [⟨byte 58, 22, [.writeField]⟩, ⟨letter 85, 75, []⟩, ⟨token, 21, []⟩]),
  (75, [⟨byte 58, 22, [.writeField]⟩, ⟨letter 78, 76, []⟩, ⟨token, 21, []⟩]),
  (76, [⟨byte 58, 22, [.writeField]⟩, ⟨letter 75, 77, []⟩, ⟨token, 21, []⟩]),
  (77, [⟨byte 58, 22, [.writeField]⟩, ⟨letter 69, 78, []⟩, ⟨token, 21, []⟩]),
  (78, [⟨byte 58, 22, [.writeField]⟩, ⟨letter 68, 79, []⟩, ⟨token, 21, []⟩]),
  (79, [⟨byte 10, 20, [.writeValue, .transChunked]⟩, ⟨byte 13, 71, [.writeValue]⟩, ⟨byte 58, 22, [.writeField]⟩,
    ⟨token, 21, []⟩]),
  (80, [⟨byte 10, 62, []⟩, ⟨letter 67, 64, [.mark]⟩, ⟨space, 63, []⟩]),
  (81, [⟨byte 10, 20, [.writeValue]⟩, ⟨byte 13, 24, [.writeValue]⟩, ⟨letter 72, 82, []⟩, ⟨any, 23, []⟩]),
  (82, [⟨byte 10, 20, [.writeValue]⟩, ⟨byte 13, 24, [.writeValue]⟩, ⟨letter 85, 83, []⟩, ⟨any, 23, []⟩]),
  (83, [⟨byte 10, 20, [.writeValue]⟩, ⟨byte 13, 24, [.writeValue]⟩, ⟨letter 78, 84, []⟩, ⟨any, 23, []⟩]),
  (84, [⟨byte 10, 20, [.writeValue]⟩, ⟨byte 13, 24, [.writeValue]⟩, ⟨letter 75, 85, []⟩, ⟨any, 23, []⟩]),
  (85, [⟨byte 10, 20, [.writeValue]⟩, ⟨byte 13, 24, [.writeValue]⟩, ⟨letter 69, 86, []⟩, ⟨any, 23, []⟩]),
  (86, [⟨byte 10, 20, [.writeValue]⟩, ⟨byte 13, 24, [.writeValue]⟩, ⟨letter 68, 87, []⟩, ⟨any, 23, []⟩]),
  (87, [⟨byte 10, 20, [.writeValue, .transChunked]⟩, ⟨byte 13, 71, [.writeValue]⟩, ⟨any, 23, []⟩]),
  (88, [⟨byte 10, 43, []⟩]),
  (89, [⟨byte 10, 122, [.done]⟩, ⟨letter 67, 38, []⟩, ⟨space, 37, []⟩]),
  (90, [⟨byte 58, 22, [.writeField]⟩, ⟨letter 76, 91, []⟩, ⟨letter 79, 26, []⟩, ⟨token, 21, []⟩]),
  (91, [⟨byte 58, 22, [.writeField]⟩, ⟨letter 79, 92, []⟩, ⟨token, 21, []⟩]),
  (92, [⟨byte 58, 22, [.writeField]⟩, ⟨letter 83, 93, []⟩, ⟨token, 21, []⟩]),
  (93, [⟨byte 58, 22, [.writeField]⟩, ⟨letter 69, 94, []⟩, ⟨token, 21, []⟩]),
  (94, [⟨byte 10, 43, []⟩, ⟨byte 13, 88, []⟩, ⟨byte 58, 22, [.writeField]⟩, ⟨token, 21, []⟩]),
  (95, [⟨byte 10, 36, []⟩, ⟨letter 67, 38, []⟩, ⟨space, 37, []⟩]),
  (96, [⟨byte 10, 20, [.writeValue]⟩, ⟨byte 13, 24, [.writeValue]⟩, ⟨letter 76, 97, []⟩, ⟨any, 23, []⟩]),
  (97, [⟨byte 10, 20, [.writeValue]⟩, ⟨byte 13, 24, [.writeValue]⟩, ⟨letter 79, 98, []⟩, ⟨any, 23, []⟩]),
  (98, [⟨byte 10, 20, [.writeValue]⟩, ⟨byte 13, 24, [.writeValue]⟩, ⟨letter 83, 99, []⟩, ⟨any, 23, []⟩]),
  (99, [⟨byte 10, 20, [.writeValue]⟩, ⟨byte 13, 24, [.writeValue]⟩, ⟨letter 69, 100, []⟩, ⟨any, 23, []⟩]),
  (100, [⟨byte 10, 43, [.writeValue]⟩, ⟨byte 13, 88, [.writeValue]⟩, ⟨any, 23, []⟩]),
  (101, [⟨byte 58, 22, [.writeField]⟩, ⟨letter 69, 102, []⟩, ⟨token, 21, []⟩]),
  (102, [⟨byte 58, 22, [.writeField]⟩, ⟨letter 78, 103, []⟩, ⟨token, 21, []⟩]),
  (103, [⟨byte 58, 22, [.writeField]⟩, ⟨letter 84, 104, []⟩, ⟨token, 21, []⟩]),
  (104, [⟨byte 45, 105, []⟩, ⟨byte 58, 22, [.writeField]⟩, ⟨token, 21, []⟩]),
  (105, [⟨byte 58, 22, [.writeField]⟩, ⟨letter 76, 106, []⟩, ⟨token, 21, []⟩]),
  (106, [⟨byte 58, 22, [.writeField]⟩, ⟨letter 69, 107, []⟩, ⟨token, 21, []⟩]),
  (107, [⟨byte 58, 22, [.writeField]⟩, ⟨letter 78, 108, []⟩, ⟨token, 21, []⟩]),
  (108, [⟨byte 58, 22, [.writeField]⟩, ⟨letter 71, 109, []⟩, ⟨token, 21, []⟩]),
  (109, [⟨byte 58, 22, [.writeField]⟩, ⟨letter 84, 110, []⟩, ⟨token, 21, []⟩]),
  (110, [⟨byte 58, 22, [.writeField]⟩, ⟨letter 72, 111, []⟩, ⟨token, 21, []⟩]),
  (111, [⟨byte 58, 112, [.writeField]⟩, ⟨token, 21, []⟩]),
  (112, [⟨byte 10, 113, [.mark, .writeValue]⟩, ⟨byte 13, 118, [.mark, .writeValue]⟩, ⟨space, 112, [.mark]⟩,
    ⟨digit, 119, [.mark]⟩, ⟨any, 23, [.mark]⟩]),
  (113, [⟨byte 10, 123, [.done]⟩, ⟨byte 13, 116, []⟩, ⟨letter 67, 25, [.startField]⟩,
    ⟨letter 84, 44, [.startField]⟩, ⟨space, 114, []⟩, ⟨digit, 117, [.mark, .startField]⟩, ⟨token, 21, [.startField]⟩]),
  (114, [⟨space, 114, []⟩, ⟨digit, 115, [.mark]⟩]),
  (115, [⟨byte 10, 20, [.writeContentLen, .writeValue]⟩, ⟨byte 13, 24, [.writeContentLen, .writeValue]⟩,
    ⟨digit, 115, []⟩]),
  (116, [⟨byte 10, 123, [.done]⟩, ⟨space, 114, []⟩, ⟨digit, 115, [.mark]⟩]),
  (117, [⟨byte 10, 20, [.writeContentLen, .writeValue]⟩, ⟨byte 13, 24, [.writeContentLen, .writeValue]⟩,
    ⟨byte 58, 22, [.writeField]⟩, ⟨digit, 117, []⟩, ⟨token, 21, []⟩]),
  (118, [⟨byte 10, 113, []⟩, ⟨space, 114, []⟩, ⟨digit, 115, [.mark]⟩]),
  (119, [⟨byte 10, 20, [.writeContentLen, .writeValue]⟩, ⟨byte 13, 24, [.writeContentLen, .writeValue]⟩,
    ⟨digit, 119, []⟩, ⟨any, 23, []⟩]),
  (121, [⟨letter 67, 64, [.mark]⟩, ⟨space, 63, []⟩]),
  (122, [⟨letter 67, 38, []⟩, ⟨space, 37, []⟩]),
  (123, [⟨space, 114, []⟩, ⟨digit, 115, [.mark]⟩])]

end Client

/-- `struct httpclient_parser`. -/
structure HttpclientParser where
  cs : Nat
  bodyStart : Nat
  contentLen : Int
  status : Int
  chunked : Bool
  chunksDone : Bool
  close : Bool
  nread : Nat
  mark : Nat
  fieldStart : Nat
  fieldLen : Nat
deriving DecidableEq, Repr

/-- `httpclient_parser_init`; it leaves `status` alone. -/
def HttpclientParser.init (parser : HttpclientParser) : HttpclientParser :=
  ⟨1, 0, -1, parser.status, false, false, false, 0, 0, 0, 0⟩

structure HttpResponseParser where
  parser : HttpclientParser
  data : HttpResponse
  error : Nat
deriving DecidableEq, Repr

namespace HttpResponseParser

def new : HttpResponseParser := ⟨HttpclientParser.init ⟨0, 0, 0, 0, false, false, false, 0, 0, 0, 0⟩, .new, 0⟩

def onResponseReason (r : HttpResponseParser) (at_ : Bytes) (length : Nat) : HttpResponseParser :=
  { r with data := { r.data with reason := at_.take length } }

def onResponseStatus (r : HttpResponseParser) (at_ : Bytes) : HttpResponseParser :=
  { r with data := { r.data with status := int32 (strtol at_ 10) } }

/-- A chunk that is not the last one is written into the reason. -/
def onResponseChunk (r : HttpResponseParser) (at_ : Bytes) (length : Nat) : HttpResponseParser :=
  { r with data := { r.data with reason := at_.take length } }

def onResponseVersion (r : HttpResponseParser) (at_ : Bytes) (length : Nat) : HttpResponseParser :=
  if strncmpEq at_ (ascii "HTTP/1.1") length then { r with data := { r.data with version := 0x11 } }
  else if strncmpEq at_ (ascii "HTTP/1.0") length then { r with data := { r.data with version := 0x10 } }
  else { r with error := 1001 }

def onResponseHttpField (r : HttpResponseParser) (field : Bytes) (flen : Nat) (value : Bytes) (vlen : Nat) :
    HttpResponseParser :=
  if flen = 0 then { r with error := 1002 }
  else { r with data := { r.data with headers := r.data.headers.set (field.take flen) (value.take vlen) } }

@[simp] theorem parser_onResponseVersion {r : HttpResponseParser} {at_ : Bytes} {length : Nat} :
    (r.onResponseVersion at_ length).parser = r.parser := by
  unfold onResponseVersion
  split_ifs <;> rfl

@[simp] theorem parser_onResponseHttpField {r : HttpResponseParser} {field value : Bytes} {flen vlen : Nat} :
    (r.onResponseHttpField field flen value vlen).parser = r.parser := by
  unfold onResponseHttpField
  split_ifs <;> rfl

/-- One action at position `p` of the buffer. -/
def act (r : HttpResponseParser) (buffer : Bytes) (a : ClientAction) (p : Nat) : HttpResponseParser :=
  let parser := r.parser
  let mark := buffer.drop parser.mark
  match a with
  | .mark => { r with parser := { parser with mark := p } }
  | .startField => { r with parser := { parser with fieldStart := p } }
  | .writeField => { r with parser := { parser with fieldLen := p - parser.fieldStart } }
  | .writeContentLen => { r with parser := { parser with contentLen := int32 (strtol mark 10) } }
  | .writeConnectionClose => { r with parser := { parser with close := true } }
  | .writeValue => r.onResponseHttpField (buffer.drop parser.fieldStart) parser.fieldLen mark (p - parser.mark)
  | .reasonPhrase => r.onResponseReason mark (p - parser.mark)
  | .statusCode => { r with parser := { parser with status := int32 (strtol mark 10) } }.onResponseStatus mark
  | .httpVersion => r.onResponseVersion mark (p - parser.mark)
  | .chunkSize =>
    let contentLen := int32 (strtol mark 16)
    let r := { r with parser := { parser with chunked := true, contentLen, chunksDone := contentLen ≤ 0 } }
    if contentLen ≤ 0 then r else r.onResponseChunk mark (p - parser.mark)
  | .transChunked => { r with parser := { parser with chunked := true } }
  | .done => { r with parser := { parser with bodyStart := p + 1 } }

/-- `httpclient_parser_execute` on the bytes of the buffer. -/
def run (r : HttpResponseParser) (buffer : Bytes) : HttpResponseParser :=
  let x := exec Client.table (· = .done) (fun a p r => r.act buffer a p) 0 r.parser.cs
    { r with parser := { r.parser with nread := 0, mark := 0, fieldLen := 0, fieldStart := 0 } } buffer
  { x.store with parser := { x.store.parser with cs := x.cs, nread := x.pos } }

/-- `execute`: a chunk header begins from the start. It returns how many bytes were consumed. -/
def execute (r : HttpResponseParser) (buffer : Bytes) (chunck : Bool) : HttpResponseParser × Nat :=
  let r := (if chunck then { r with parser := r.parser.init } else r).run buffer
  (r, r.parser.nread)

def hasError (r : HttpResponseParser) : Bool := r.error ≠ 0 || r.parser.cs = 0

/-- `isFinished` of a parser without error: only one of the final states counts. -/
def isFinished (r : HttpResponseParser) : Bool := r.parser.cs = 120

def getContentLength (r : HttpResponseParser) : Nat := getHeaderAs r.data.headers (ascii "content-length")

theorem run_nread_le {r : HttpResponseParser} {buffer : Bytes} : (r.run buffer).parser.nread ≤ buffer.length :=
  Nat.le_trans pos_exec_le (Nat.le_of_eq (Nat.zero_add _))

theorem execute_snd_le {r : HttpResponseParser} {buffer : Bytes} {chunck : Bool} :
    (r.execute buffer chunck).2 ≤ buffer.length := run_nread_le

theorem act_bodyStart (buffer : Bytes) (a : ClientAction) (p : Nat) (r : HttpResponseParser) :
    (r.act buffer a p).parser.bodyStart = r.parser.bodyStart ∨ (r.act buffer a p).parser.bodyStart = p + 1 := by
  cases a with
  | done => exact Or.inr rfl
  | chunkSize =>
    left
    simp only [act]
    split_ifs <;> rfl
  | writeValue => exact Or.inl (congrArg _ parser_onResponseHttpField)
  | httpVersion => exact Or.inl (congrArg _ parser_onResponseVersion)
  | _ => exact Or.inl rfl

/-- `body_start` stays inside the buffer. -/
theorem run_bodyStart_le {r : HttpResponseParser} {buffer : Bytes} (h : r.parser.bodyStart ≤ buffer.length) :
    (r.run buffer).parser.bodyStart ≤ buffer.length := by
  refine exec_keeps (P := fun r : HttpResponseParser => r.parser.bodyStart ≤ buffer.length) (fun a q r hq hr => ?_) h
  rcases act_bodyStart buffer a q r with h | h <;> rw [h]
  · exact hr
  · omega

end HttpResponseParser
end Http
end MyHttp

import MyHttp.Config.FromString
import MyHttp.Http.Message

/-! The limits of messages (`http_parser.cpp`): four variables, and four numbers that are read in their place. -/

namespace MyHttp
namespace Http

open Lib.CString

/-- The kind of message in the name of a variable, `http.request.buffer_size` and the like. -/
inductive MessageKind where
  | request
  | response
deriving DecidableEq, Repr

inductive Limit where
  | bufferSize
  | maxBodySize
deriving DecidableEq, Repr

/-- `g_http_request_buffer_size` and the other three, and `s_http_request_buffer_size` and the other three. -/
structure Limits where
  vars : MessageKind × Limit → ConfigValue UInt64
  cached : MessageKind × Limit → UInt64

namespace Limits

def default : MessageKind × Limit → UInt64
  | (_, .bufferSize) => 4 * 1024
  | (_, .maxBodySize) => 64 * 1024 * 1024

/-- The listeners in the order in which `_RequestSizeIniter` adds them: the variable of each, and the number that it
    sets. -/
def listeners : List ((MessageKind × Limit) × (MessageKind × Limit)) :=
  [((.request, .bufferSize), (.request, .bufferSize)), ((.request, .bufferSize), (.request, .maxBodySize)),
   ((.response, .bufferSize), (.response, .bufferSize)), ((.response, .bufferSize), (.response, .maxBodySize))]

/-- The keys in `m_cbs` of a variable, when so many keys have been given before. -/
def keys (given : Nat) (x : MessageKind × Limit) : List Nat :=
  ((List.range listeners.length).filter fun i => listeners[i]?.map (·.1) = some x).map (given + 1 + ·)

theorem keys_sorted (given : Nat) (x : MessageKind × Limit) : (keys given x).Pairwise (· < ·) :=
  (List.pairwise_lt_range.filter _).map _ fun _ _ h => Nat.add_lt_add_left h _

/-- The static initialisation. -/
def init (given : Nat) : Limits := ⟨fun x => ⟨default x, keys given x, keys_sorted given x⟩, default⟩

/-- What a listener does. -/
def onChange (given : Nat) (cached : MessageKind × Limit → UInt64) (n : Notice UInt64) : MessageKind × Limit → UInt64 :=
  match listeners[n.key - (given + 1)]? with
  | none => cached
  | some l => Function.update cached l.2 n.newValue

inductive Call where
  | setValue (x : MessageKind × Limit) (v : UInt64)
  | fromString (x : MessageKind × Limit) (val : Bytes)
deriving DecidableEq, Repr

def Call.var : Call → MessageKind × Limit
  | .setValue x _ => x
  | .fromString x _ => x

/-- `LexicalCast<std::string, uint64_t>`. -/
def fromStr (val : Bytes) : Option UInt64 := (lexicalCast val).map UInt64.ofNat

/-- What the variable does. None of the listeners throws. -/
def Call.run (s : ConfigValue UInt64) : Call → Bool × List (Notice UInt64) × ConfigValue UInt64
  | .setValue _ v => s.setValue (fun _ _ _ => false) v
  | .fromString _ val => s.fromString fromStr (fun _ _ _ => false) val

def step (given : Nat) (s : Limits) (c : Call) : Limits :=
  let (_, notices, var) := c.run (s.vars c.var)
  ⟨Function.update s.vars c.var var, notices.foldl (onChange given) s.cached⟩

def getHttpRequestBufferSize (s : Limits) : UInt64 := s.cached (.request, .bufferSize)

def getHttpRequestMaxBodySize (s : Limits) : UInt64 := s.cached (.request, .maxBodySize)

def getHttpResponseBufferSize (s : Limits) : UInt64 := s.cached (.response, .bufferSize)

def getHttpResponseMaxBodySize (s : Limits) : UInt64 := s.cached (.response, .maxBodySize)

end Limits
end Http
end MyHttp

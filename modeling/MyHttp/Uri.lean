import MyHttp.UriTable
import MyHttp.Http.Message
import MyHttp.Lib.Machine

/-! `Uri` (`uri.rl`): what `Create` reads from a text, and what `toString` writes. -/

namespace MyHttp

open Lib.CString Lib.Machine Lib.Scan

structure Uri where
  scheme : Bytes
  userinfo : Bytes
  host : Bytes
  port : Int
  path : Bytes
  query : Bytes
  fragment : Bytes
deriving DecidableEq, Repr

/-- What the constructor of a string throws. -/
inductive StringError where
  /-- `std::logic_error`: made from a null pointer -/
  | null
deriving DecidableEq, Repr

/-- What `Create` writes to while it reads; `mark` may be null. -/
structure UriReader where
  mark : Option Nat
  uri : Uri
deriving DecidableEq, Repr

namespace UriReader

def atoi (s : Bytes) : Int := int32 (strtol s 10)

/-- The string from `mark` to a position; there is none when `mark` is null. -/
def text (s : Bytes) (p : Nat) (r : UriReader) : Option Bytes := r.mark.map fun m => (s.drop m).take (p - m)

/-- An action at a position of the text; `none` when an exception is thrown. -/
def act (s : Bytes) (a : UriAction) (p : Nat) (r : UriReader) : Option UriReader :=
  match a with
  | .mark => some { r with mark := some p }
  | .saveScheme => (r.text s p).map fun v => ⟨none, { r.uri with scheme := v }⟩
  | .savePort => r.mark.map fun m => ⟨none, if p ≠ m then { r.uri with port := atoi (s.drop m) } else r.uri⟩
  | .saveUserinfo => some ⟨none, { r.uri with userinfo := (r.text s p).getD r.uri.userinfo }⟩
  | .saveHost => some { r with uri := { r.uri with host := (r.text s p).getD r.uri.host } }
  | .savePath => (r.text s p).map fun v => ⟨none, { r.uri with path := v }⟩
  | .saveQuery => (r.text s p).map fun v => ⟨none, { r.uri with query := v }⟩
  | .saveFragment => (r.text s p).map fun v => ⟨none, { r.uri with fragment := v }⟩

end UriReader

namespace Uri

def new : Uri := ⟨[], [], [], 0, [], [], []⟩

/-- The action of the machine; nothing is done after an exception. -/
def act (s : Bytes) (a : UriAction) (p : Nat) (r : Option UriReader) : Option UriReader := r.bind (UriReader.act s a p)

/-- What `Create` makes of the machine when it has stopped: the actions of the end are run, an exception leaves the
    function, and only a final state gives a URI. -/
def finish (s : Bytes) (x : Scanned (Option UriReader)) : Except StringError (Option Uri) :=
  match (UriParser.eofActions x.cs).foldl (fun r a => act s a x.pos r) x.store with
  | none => .error .null
  | some r => .ok (if 451 ≤ x.cs then some r.uri else none)

/-- `Uri::Create`; `none` is the null pointer. -/
def create (uristr : Bytes) : Except StringError (Option Uri) :=
  finish uristr (exec UriParser.table (fun _ => false) (act uristr) 0 451 (some ⟨none, new⟩) uristr)

variable (u : Uri)

def isDefaultPort : Bool :=
  if u.port = 0 then true
  else if u.scheme = ascii "http" ∨ u.scheme = ascii "ws" then u.port = 80
  else if u.scheme = ascii "https" ∨ u.scheme = ascii "wss" then u.port = 443
  else false

def getPath : Bytes := if u.path = [] then ascii "/" else u.path

def getPort : Int :=
  if u.port ≠ 0 then u.port
  else if u.scheme = ascii "http" ∨ u.scheme = ascii "ws" then 80
  else if u.scheme = ascii "https" ∨ u.scheme = ascii "wss" then 443
  else u.port

/-- `std::to_string` of an `int`. -/
def portText (n : Int) : Bytes := (if n < 0 then ascii "-" else []) ++ Http.decimalText n.natAbs

/-- `dump` to a stream, as a string. -/
def toString : Bytes :=
  u.scheme ++ ascii "://" ++ u.userinfo ++ (if u.userinfo = [] then [] else ascii "@") ++ u.host ++
    (if u.isDefaultPort then [] else ascii ":" ++ portText u.port) ++ u.getPath ++
    (if u.query = [] then [] else ascii "?") ++ u.query ++
    (if u.fragment = [] then [] else ascii "#") ++ u.fragment

end Uri
end MyHttp

import Mathlib.Data.List.Find
import MyHttp.Lib.CString

/-! Requests and responses (`http.h`, `http.cpp`): methods, the header map with its case-insensitive order, and the
    number a header is read as. -/

namespace MyHttp
namespace Http

open Lib.CString

/-- `HTTP_METHOD_MAP`, without `HTT_INVALID_METHOD`. -/
inductive HttpMethod where
  | delete | get | head | post | put | connect | options | trace | copy | lock | mkcol | move | propfind | proppatch
  | search | unlock | bind | rebind | unbind | acl | report | mkactivity | checkout | merge | msearch | notify
  | subscribe | unsubscribe | patch | purge | mkcalendar | link | unlink | source
deriving DecidableEq, Repr

/-- The methods with their strings, in the order of `HTTP_METHOD_MAP`. -/
def methodMap : List (HttpMethod × String) :=
  [(.delete, "DELETE"), (.get, "GET"), (.head, "HEAD"), (.post, "POST"), (.put, "PUT"), (.connect, "CONNECT"),
   (.options, "OPTIONS"), (.trace, "TRACE"), (.copy, "COPY"), (.lock, "LOCK"), (.mkcol, "MKCOL"), (.move, "MOVE"),
   (.propfind, "PROPFIND"), (.proppatch, "PROPPATCH"), (.search, "SEARCH"), (.unlock, "UNLOCK"), (.bind, "BIND"),
   (.rebind, "REBIND"), (.unbind, "UNBIND"), (.acl, "ACL"), (.report, "REPORT"), (.mkactivity, "MKACTIVITY"),
   (.checkout, "CHECKOUT"), (.merge, "MERGE"), (.msearch, "M-SEARCH"), (.notify, "NOTIFY"),
   (.subscribe, "SUBSCRIBE"), (.unsubscribe, "UNSUBSCRIBE"), (.patch, "PATCH"), (.purge, "PURGE"),
   (.mkcalendar, "MKCALENDAR"), (.link, "LINK"), (.unlink, "UNLINK"), (.source, "SOURCE")]

/-- `StringToHttpMethod`, on `m.c_str()`. -/
def stringToHttpMethod (m : Bytes) : Option HttpMethod :=
  (methodMap.find? fun x => strncmpEq (ascii x.2) m x.2.length).map (·.1)

/-- `CharsToHttpMethod`: the first method whose string the characters begin with; `none` is `HTT_INVALID_METHOD`. -/
def charsToHttpMethod (m : Bytes) : Option HttpMethod :=
  (methodMap.find? fun x => strncmpEq (ascii x.2) m x.2.length).map (·.1)

theorem methodMap_words : ∀ x ∈ methodMap, 32 ∉ ascii x.2 ∧ x.2.length ≤ (ascii x.2).length := by decide +kernel

/-- What stands behind a blank does not matter. -/
theorem charsToHttpMethod_blank {word s t : Bytes} :
    charsToHttpMethod (word ++ 32 :: s) = charsToHttpMethod (word ++ 32 :: t) := by
  have hsame : ∀ x ∈ methodMap,
      strncmpEq (ascii x.2) (word ++ 32 :: s) x.2.length = strncmpEq (ascii x.2) (word ++ 32 :: t) x.2.length := by
    intro x hx
    obtain ⟨hblank, hlen⟩ := methodMap_words x hx
    exact strncmpEq_stop hblank hlen
  rw [charsToHttpMethod, charsToHttpMethod, List.find?_congr hsame]

/-- `std::map` with `CaseInsensitiLess`, in its order. -/
abbrev Headers := List (Bytes × Bytes)

namespace Headers

/-- `operator[]` and assignment: an equivalent key keeps its spelling. -/
def set (m : Headers) (key val : Bytes) : Headers :=
  match m with
  | [] => [(key, val)]
  | (k, v) :: rest =>
    if strcaseLess key k then (key, val) :: (k, v) :: rest
    else if strcaseLess k key then (k, v) :: set rest key val
    else (k, val) :: rest

/-- `find`. -/
def get (m : Headers) (key : Bytes) : Option Bytes :=
  (m.find? fun x => strcaseEquiv x.1 key).map (·.2)

theorem get_set {m : Headers} {key val key' : Bytes} :
    (m.set key val).get key' = if strcaseEquiv key key' then some val else m.get key' := by
  induction m with
  | nil => by_cases h : strcaseEquiv key key' <;> simp [set, get, h]
  | cons x m ih =>
    obtain ⟨k, v⟩ := x
    by_cases hbefore : strcaseLess key k = true
    · by_cases h : strcaseEquiv key key' <;> simp [set, get, hbefore, h]
    · by_cases hafter : strcaseLess k key = true
      · simp only [set, hbefore, hafter, if_true]
        by_cases hk : strcaseEquiv k key' = true
        · have hne : strcaseEquiv key key' = false := by
            by_contra h
            have hkey := strcaseEquiv_congr (u := key) hk
            rw [strcaseEquiv_comm, Bool.not_eq_false] at h
            rw [h, strcaseEquiv, hafter] at hkey
            simp at hkey
          simp [get, hk, hne]
        · simp only [get, Bool.false_eq_true, if_false, List.find?_cons, hk] at ih ⊢
          exact ih
      · have hequiv : strcaseEquiv k key = true := by simp [strcaseEquiv, hbefore, hafter]
        simp only [set, hbefore, hafter]
        by_cases h : strcaseEquiv key key' <;> simp [get, strcaseEquiv_congr hequiv, h]

end Headers

/-- A sequence of digits that fits into 64 bits. -/
def decimal (s : Bytes) : Option Nat :=
  if s ≠ [] ∧ (s.all fun c => 48 ≤ c && c ≤ 57) = true ∧ digits 10 0 s < 2 ^ 64 then some (digits 10 0 s) else none

/-- `boost::lexical_cast<uint64_t>`. A minus sign negates modulo 2⁶⁴. -/
def lexicalCast : Bytes → Option Nat
  | 45 :: s => (decimal s).map fun v => (2 ^ 64 - v) % 2 ^ 64
  | 43 :: s => decimal s
  | s => decimal s

/-- `getHeaderAs<uint64_t>` with default 0. -/
def getHeaderAs (m : Headers) (key : Bytes) : Nat := ((m.get key).bind lexicalCast).getD 0

structure HttpRequest where
  method : HttpMethod
  version : Nat
  close : Bool
  path : Bytes
  query : Bytes
  fragment : Bytes
  body : Bytes
  headers : Headers
deriving DecidableEq, Repr

/-- The constructor with its defaults. -/
def HttpRequest.new : HttpRequest := ⟨.get, 0x11, true, ascii "/", [], [], [], []⟩

structure HttpResponse where
  /-- `(HttpStatus)` of any `int` -/
  status : Int
  version : Nat
  close : Bool
  body : Bytes
  reason : Bytes
  headers : Headers
deriving DecidableEq, Repr

def HttpResponse.new : HttpResponse := ⟨200, 0x11, true, [], [], []⟩

/-- `HTTP_STATUS_MAP`. -/
def statusMap : List (Int × String) :=
  [(100, "Continue"), (101, "Switching Protocols"), (102, "Processing"), (200, "OK"), (201, "Created"),
   (202, "Accepted"), (203, "Non-Authoritative Information"), (204, "No Content"), (205, "Reset Content"),
   (206, "Partial Content"), (207, "Multi-Status"), (208, "Already Reported"), (226, "IM Used"),
   (300, "Multiple Choices"), (301, "Moved Permanently"), (302, "Found"), (303, "See Other"), (304, "Not Modified"),
   (305, "Use Proxy"), (307, "Temporary Redirect"), (308, "Permanent Redirect"), (400, "Bad Request"),
   (401, "Unauthorized"), (402, "Payment Required"), (403, "Forbidden"), (404, "Not Found"),
   (405, "Method Not Allowed"), (406, "Not Acceptable"), (407, "Proxy Authentication Required"),
   (408, "Request Timeout"), (409, "Conflict"), (410, "Gone"), (411, "Length Required"),
   (412, "Precondition Failed"), (413, "Payload Too Large"), (414, "URI Too Long"), (415, "Unsupported Media Type"),
   (416, "Range Not Satisfiable"), (417, "Expectation Failed"), (421, "Misdirected Request"),
   (422, "Unprocessable Entity"), (423, "Locked"), (424, "Failed Dependency"), (426, "Upgrade Required"),
   (428, "Precondition Required"), (429, "Too Many Requests"), (431, "Request Header Fields Too Large"),
   (451, "Unavailable For Legal Reasons"), (500, "Internal Server Error"), (501, "Not Implemented"),
   (502, "Bad Gateway"), (503, "Service Unavailable"), (504, "Gateway Timeout"),
   (505, "HTTP Version Not Supported"), (506, "Variant Also Negotiates"), (507, "Insufficient Storage"),
   (508, "Loop Detected"), (510, "Not Extended"), (511, "Network Authentication Required")]

def httpStatusToString (s : Int) : Bytes := ascii ((statusMap.lookup s).getD "<unknown>")

/-- A number as it is written to a stream. -/
def decimalText (n : Nat) : Bytes := ascii (toString n)

/-- The number of a method in the enumeration. -/
def HttpMethod.number (m : HttpMethod) : Nat := (methodMap.map (·.1)).idxOf m

/-- The number of what the recognisers return; `HTT_INVALID_METHOD` comes behind the methods. -/
def methodNumber : Option HttpMethod → Nat
  | some m => m.number
  | none => methodMap.length

/-- `HttpMethodToString` of the number that an `HttpMethod` holds. The test lets through one number that the table does
    not have; what is read behind its end is not known. -/
def httpMethodToString (m : Nat) : Option Bytes :=
  if m > methodMap.length then some (ascii "<unknown>") else methodMap[m]?.map fun x => ascii x.2

namespace HttpRequest

def startLine (r : HttpRequest) (method : Bytes) : Bytes :=
  method ++ ascii " " ++ r.path ++ (if r.query = [] then [] else ascii "?") ++ r.query ++
    (if r.fragment = [] then [] else ascii "#") ++ r.fragment ++ ascii " HTTP/" ++ decimalText (r.version / 16) ++
    ascii "." ++ decimalText (r.version % 16)

/-- The header lines that `dump` writes before it comes to the body. -/
def headerLines (r : HttpRequest) : List Bytes :=
  (ascii "connection: " ++ ascii (if r.close then "close" else "keep-alive")) ::
    (r.headers.filter fun h => !strcaseEquiv h.1 (ascii "connection")).map fun h => h.1 ++ ascii ":" ++ h.2

/-- `dump`, when `m` is the number in `m_method`. -/
def dumpAs (r : HttpRequest) (m : Nat) : Option Bytes :=
  (httpMethodToString m).map fun method =>
    r.startLine method ++ ascii "\r\n" ++ r.headerLines.flatMap (· ++ ascii "\r\n") ++
      if r.body = [] then ascii "\r\n"
      else ascii "content-length: " ++ decimalText r.body.length ++ ascii "\r\n\r\n" ++ r.body

end HttpRequest

namespace HttpResponse

/-- `HttpResponse(version, close)`. -/
def make (version : Nat) (close : Bool) : HttpResponse := { new with version, close }

/-- The header lines that `dump` writes: those of the map but `connection`, and `connection` from the close flag. -/
def headerLines (r : HttpResponse) : Headers :=
  r.headers.filter (fun h => !strcaseEquiv h.1 (ascii "connection")) ++
    [(ascii "connection", ascii (if r.close then "close" else "keep-alive"))]

def dump (r : HttpResponse) : Bytes :=
  ascii "HTTP/" ++ decimalText (r.version / 16) ++ ascii "." ++ decimalText (r.version % 16) ++ ascii " " ++
    decimalText (r.status % 2 ^ 32).toNat ++ ascii " " ++
    (if r.reason = [] then httpStatusToString r.status else r.reason) ++ ascii "\r\n" ++
    r.headerLines.flatMap (fun h => h.1 ++ ascii ": " ++ h.2 ++ ascii "\r\n") ++
    if r.body = [] then ascii "\r\n"
    else ascii "content-length: " ++ decimalText r.body.length ++ ascii "\r\n\r\n" ++ r.body

/-- Whatever the header map holds, the connection line of a response says what its close flag says. -/
theorem get_headerLines (r : HttpResponse) :
    Headers.get r.headerLines (ascii "connection") = some (ascii (if r.close then "close" else "keep-alive")) := by
  have hnone : (r.headers.filter fun h => !strcaseEquiv h.1 (ascii "connection")).find?
      (fun x => strcaseEquiv x.1 (ascii "connection")) = none := by
    rw [List.find?_eq_none]
    intro x hx hequiv
    rw [List.mem_filter, hequiv] at hx
    cases hx.2
  have hself : strcaseEquiv (ascii "connection") (ascii "connection") = true := by decide
  simp only [Headers.get, headerLines, List.find?_append, hnone, Option.none_or, List.find?_cons, hself, Option.map_some]

end HttpResponse

/-- A content-length as the `int64_t` it is kept in. -/
def int64 (n : Nat) : Int := if n < 2 ^ 63 then n else n - 2 ^ 64

example : charsToHttpMethod (ascii "GET /") = some .get := by decide

example : getHeaderAs (Headers.set (Headers.set [] (ascii "Host") (ascii "a")) (ascii "CONTENT-Length") (ascii "12"))
    (ascii "content-length") = 12 := by decide

end Http
end MyHttp

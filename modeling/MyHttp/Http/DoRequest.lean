import MyHttp.Uri

/-! The requests that the clients build (`http_connection.cpp`): `DoGet`, `DoPost` and `DoRequest` of a connection of their
    own, and `doGet`, `doPost` and `doRequest` of a pool. -/

namespace MyHttp
namespace Http

open Lib.CString

/-- The headers that a caller gives: a `std::map` in its order, which tells the cases of letters apart. -/
structure GivenHeaders where
  entries : List (Bytes × Bytes)
  sorted : entries.Pairwise fun x y => x.1 < y.1

/-- `setHeader`. -/
def HttpRequest.setHeader (r : HttpRequest) (key val : Bytes) : HttpRequest := { r with headers := r.headers.set key val }

/-- One round of the loop over the headers, on the request and `has_host`. -/
def addHeader (st : HttpRequest × Bool) (h : Bytes × Bytes) : HttpRequest × Bool :=
  let (req, hasHost) := st
  if strcaseEquiv h.1 (ascii "connection") then
    (if strcaseEquiv h.2 (ascii "keep-alive") then { req with close := false } else req, hasHost)
  else
    let hasHost := if !hasHost && strcaseEquiv h.1 (ascii "host") then decide (h.2 ≠ []) else hasHost
    (req.setHeader h.1 h.2, hasHost)

/-- The request with the headers of the caller, a host where they give none, and a body. -/
def complete (req : HttpRequest) (headers : GivenHeaders) (host body : Bytes) : HttpRequest :=
  let (req, hasHost) := headers.entries.foldl addHeader (req, false)
  let req := if hasHost then req else req.setHeader (ascii "Host") host
  { req with body }

namespace HttpConnection

/-- The request of `DoRequest`. -/
def doRequest (method : HttpMethod) (uri : Uri) (headers : GivenHeaders) (body : Bytes) : HttpRequest :=
  let req := { HttpRequest.new with path := uri.getPath, query := uri.query, fragment := uri.fragment, method }
  complete req headers uri.host body

/-- The request of `DoGet`. -/
def doGet (uri : Uri) (headers : GivenHeaders) (body : Bytes) : HttpRequest := doRequest .get uri headers body

/-- The request of `DoPost`. -/
def doPost (uri : Uri) (headers : GivenHeaders) (body : Bytes) : HttpRequest := doRequest .post uri headers body

end HttpConnection

/-- `m_host` and `m_vhost` of a pool. -/
structure PoolHosts where
  host : Bytes
  vhost : Bytes
deriving DecidableEq, Repr

namespace PoolHosts

variable (pool : PoolHosts)

/-- The request of `doRequest` with a text. -/
def doRequest (method : HttpMethod) (url : Bytes) (headers : GivenHeaders) (body : Bytes) : HttpRequest :=
  let req := { HttpRequest.new with path := url, method, close := true }
  complete req headers (if pool.vhost = [] then pool.host else pool.vhost) body

/-- The text that is made of a URI. -/
def target (uri : Uri) : Bytes :=
  uri.getPath ++ (if uri.query = [] then [] else ascii "?") ++ uri.query ++
    (if uri.fragment = [] then [] else ascii "#") ++ uri.fragment

/-- The request of `doRequest` with a URI. -/
def doRequestUri (method : HttpMethod) (uri : Uri) (headers : GivenHeaders) (body : Bytes) : HttpRequest :=
  pool.doRequest method (target uri) headers body

/-- The request of `doGet` with a text. -/
def doGet (url : Bytes) (headers : GivenHeaders) (body : Bytes) : HttpRequest := pool.doRequest .get url headers body

/-- The request of `doGet` with a URI. -/
def doGetUri (uri : Uri) (headers : GivenHeaders) (body : Bytes) : HttpRequest := pool.doGet (target uri) headers body

/-- The request of `doPost` with a text. -/
def doPost (url : Bytes) (headers : GivenHeaders) (body : Bytes) : HttpRequest := pool.doRequest .post url headers body

/-- The request of `doPost` with a URI. -/
def doPostUri (uri : Uri) (headers : GivenHeaders) (body : Bytes) : HttpRequest := pool.doPost (target uri) headers body

end PoolHosts
end Http
end MyHttp

import MyHttp.Http.HttpServer
import MyHttp.Http.Requests
import MyHttp.Http.ServletDispatch

/-! `HttpServer::handleClient` with the servlets of its `ServletDispatch`: the loop as it runs when every servlet only sets
    the response. -/

namespace MyHttp
namespace Http

open Lib.CString

/-- `Servlet::handle`, as what it makes of the response. -/
abbrev Servlet := HttpRequest → HttpResponse → HttpResponse

/-- `NotFoundServlet::handle`. -/
def NotFoundServlet.handle : Servlet := fun _ response =>
  { response with
    status := 404
    headers := (response.headers.set (ascii "Server") (ascii "myhttp/1.0.0")).set (ascii "Content-Type") (ascii "text/html")
    body := ascii ("<html><head><title>404 Not Found" ++
      "</title></head><body><h1>Not Found</h1><p>The requested URL /404/ was not found on this server.</p>" ++
      "<hr><address>myhttp/1.0,0 Port 80</address></body></html>") }

/-- `ServletDispatch::handle`, with `fnmatch` of a pattern and a URI. -/
def ServletDispatch.handle (fnmatch : Bytes → Bytes → Bool) (s : ServletDispatch Servlet) : Servlet := fun request response =>
  s.getMatchedServlet fnmatch request.path request response

/-- A step of the loop that handles a client. -/
inductive ServeAct where
  | recv (a : RecvAct)
  /-- the code goes on -/
  | run
deriving DecidableEq, Repr

/-- The request that is answered with an event. -/
def ServerEvent.request : ServerEvent → Option HttpRequest
  | .answered request _ => some request
  | _ => none

namespace HandleClient

/-- The loop with its servlet; the parsers of all requests find the same `uri_relaxed`. -/
def serve (servlet : Servlet) (uriRelaxed : Bool) (s : HandleClient) : ServeAct → Option HandleClient
  | .recv a => s.step (.recv a)
  | .run => if s.pc = .handle then s.step (.servlet (servlet s.request)) else s.step (.run uriRelaxed)

/-- The requests that are answered, in their order. -/
def answered (s : HandleClient) : List HttpRequest := (s.events.filterMap ServerEvent.request).reverse

/-- The calls of `recvRequest` so far, as calls on a session. -/
def session (s : HandleClient) : Session := ⟨s.call, s.answered.map some, 0⟩

/-- What must be true of a step when the client sends some requests: the read with the head of a request has all of it,
    and nothing of the next request. -/
def Apart {relaxed : Bool} (requests : List (Message relaxed)) (s : HandleClient) : ServeAct → Prop
  | .recv a => s.session.Apart requests (.recv a)
  | .run => True

instance {relaxed : Bool} (requests : List (Message relaxed)) (s : HandleClient) (a : ServeAct) :
    Decidable (Apart requests s a) := by
  induction a using ServeAct.casesOn <;> unfold Apart <;> infer_instance

/-- How far a call of `recvRequest` is from its next read. -/
def ahead : RequestPc → Nat
  | .headParse => 8
  | .length => 7
  | .fixRead => 6
  | .headRead | .returned _ | .fault => 2

/-- How many steps can still come at most. -/
def remaining (s : HandleClient) : Nat :=
  10 * s.call.input.length +
    match s.pc with
    | .receive => ahead s.call.pc
    | .handle => 5
    | .send => 4
    | .loop => 3
    | .close => 1
    | .closed | .thrown => 0

/-- What the loop sends for a request. The constructor is handed the close flag of the request, which is always set. -/
def answer (servlet : Servlet) (request : HttpRequest) : HttpResponse := servlet request (.make request.version true)

end HandleClient
end Http
end MyHttp

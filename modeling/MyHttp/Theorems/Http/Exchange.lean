import MyHttp.Theorems.Http.ResponseTrip
import MyHttp.Theorems.Http.Serve

/-! A request from the text of a client to the response it receives: the text is read by the server as the same request,
    answered by the servlet, and the text of the answer is read by the client as the same response. -/

namespace MyHttp
namespace Http

open Lib.CString Lib.Scan Lib.Lines Lib.Run

namespace HttpRequest

open HttpRequestParser

variable {r : HttpRequest} {uriRelaxed : Bool}

/-- A request that a parser takes: its method is one word of letters, and its values have no byte that stops it. -/
structure Sendable (r : HttpRequest) : Prop where
  legal : Legal r
  method : r.method ≠ .msearch
  values : ∀ x ∈ r.headers, ∀ c ∈ x.2, c ≠ 0 ∧ c ≠ 127

/-- The text in front of the body. -/
def headBytes (r : HttpRequest) : Bytes :=
  r.firstLine ((httpMethodToString r.method.number).getD []) ++ fieldText r.fields ++ lineEnd

/-- The request as the parser makes it: the headers are those of the text, and the close flag is that of the constructor. -/
def received (r : HttpRequest) : HttpRequest := { r.parsed with body := r.body }

theorem head_eq {x : HttpMethod × String} (hx : x ∈ methodMap) (hm : x.1 = r.method) :
    r.headBytes = r.firstLine (ascii x.2) ++ fieldText r.fields ++ lineEnd := by
  have hmethods : ∀ x ∈ methodMap, httpMethodToString x.1.number = some (ascii x.2) := by decide +kernel
  rw [headBytes, ← hm, hmethods x hx, Option.getD_some]

theorem dumpAs_head (h : Legal r) : r.dumpAs r.method.number = some (r.headBytes ++ r.body) := by
  obtain ⟨x, hx, hm⟩ := exists_string r.method
  rw [dumpAs_fields h hx hm, head_eq hx hm]

theorem sent (uriRelaxed : Bool) (h : Sendable r) :
    RecvRequest.Sent uriRelaxed r.headBytes r.body ∧ RecvRequest.request uriRelaxed r.headBytes r.body = r.received := by
  obtain ⟨x, hx, hm⟩ := exists_string r.method
  have hchars := chars_fields.mpr ((valueText_headers h.legal).mpr h.values)
  have hreads : Reads uriRelaxed _ 1 13 .new _ := reads_text h.legal hx hm h.method hchars
  obtain ⟨hholds, hcs, hconsumed⟩ := execute_of_reads hreads []
  rw [List.append_nil, ← head_eq hx hm] at hholds hcs hconsumed
  have hdata : (whole uriRelaxed r.headBytes).data = r.parsed := hholds.data
  refine ⟨⟨⟨hholds.error, hholds.thrown, hcs, hconsumed⟩, ?_⟩, ?_⟩
  · rw [getContentLength, hdata]
    exact contentLength_parsed h.legal
  · rw [RecvRequest.request, hdata]
    rfl

/-- A request as a message of its client. -/
def message (uriRelaxed : Bool) (r : HttpRequest) (h : Sendable r) : Message uriRelaxed := ⟨r.headBytes, r.body, (sent uriRelaxed h).1⟩

theorem message_request (uriRelaxed : Bool) (h : Sendable r) : (r.message uriRelaxed h).request = r.received := (sent uriRelaxed h).2

/-- What the server finds in a request. -/
structure Arrived (r received : HttpRequest) : Prop where
  line : received.method = r.method ∧ received.version = r.version ∧ received.path = r.path ∧ received.query = r.query ∧
    received.fragment = r.fragment
  headers : received.headers.Perm r.sentHeaders
  body : received.body = r.body

theorem arrived (h : Legal r) : Arrived r r.received := ⟨⟨rfl, rfl, rfl, rfl, rfl⟩, headers_parsed h, rfl⟩

end HttpRequest

namespace HandleClient

theorem sendable_page : HttpRequest.pageRequest.Sendable := by
  have hpath : AbsolutePath HttpRequest.pageRequest.path := ⟨ascii "a", rfl, .char rfl .nil, by decide⟩
  exact ⟨⟨by decide, hpath, .char rfl (.pct rfl rfl .nil), .char rfl .nil, by decide +kernel, by decide +kernel, by decide,
    by decide⟩, by decide, by decide +kernel⟩

/-- A dispatcher with one servlet, which sends back what it was sent. -/
def echoDispatch : ServletDispatch Servlet :=
  (ServletDispatch.new NotFoundServlet.handle).step
    (.addServlet (ascii "/a") fun request response => { response with body := request.body })

end HandleClient
end Http
end MyHttp

import MyHttp.Http.Session

/-! `HttpServer::handleClient` on one connection: requests are received, handed to a servlet and answered until the loop
    ends. What a servlet makes of a response is up to the environment. -/

namespace MyHttp
namespace Http

open Lib.CString

/-- Where `handleClient` is. -/
inductive HandlePc where
  /-- in `recvRequest` -/
  | receive
  /-- before the servlet -/
  | handle
  /-- before `sendResponse` -/
  | send
  /-- before the condition of the loop -/
  | loop
  /-- before `session->close()` -/
  | close
  | closed
  /-- left by an exception -/
  | thrown
deriving DecidableEq, Repr

/-- What is seen of a connection. -/
inductive ServerEvent where
  /-- a call of `recvRequest` -/
  | reads
  /-- `sendResponse` of the response to a request -/
  | answered (request : HttpRequest) (response : HttpResponse)
  | closes
deriving DecidableEq, Repr

structure HandleClient where
  pc : HandlePc
  /-- `m_isKeepalive` -/
  keepalive : Bool
  call : RecvRequest
  request : HttpRequest
  response : HttpResponse
  output : Bytes
  /-- the latest first -/
  events : List ServerEvent
deriving DecidableEq, Repr

inductive HandleAct where
  | recv (a : RecvAct)
  /-- the servlet changes the response -/
  | servlet (f : HttpResponse → HttpResponse)
  /-- the code goes on; a new parser would find this in `uri_relaxed` -/
  | run (uriRelaxed : Bool)

namespace HandleClient

def init (keepalive : Bool) (buffSize maxSize : Nat) (uriRelaxed : Bool) (input : Bytes) : HandleClient :=
  ⟨.receive, keepalive, .init buffSize maxSize uriRelaxed input, .new, .new, [], [.reads]⟩

/-- After a step of `recvRequest`. -/
def received (s : HandleClient) (call : RecvRequest) : HandleClient :=
  match call.pc with
  | .returned true =>
    let request := call.parser.data
    { s with call, pc := .handle, request, response := .make request.version (request.close || !s.keepalive) }
  | .returned false => { s with call, pc := .close }
  | .fault => { s with call, pc := .thrown }
  | _ => { s with call }

def step (s : HandleClient) : HandleAct → Option HandleClient
  | .recv a => if s.pc = .receive then (s.call.step a).map s.received else none
  | .servlet f => if s.pc = .handle then some { s with pc := .send, response := f s.response } else none
  | .run uriRelaxed =>
    match s.pc with
    | .send =>
      some { s with
        pc := .loop
        output := s.output ++ s.response.dump
        events := .answered s.request s.response :: s.events }
    | .loop =>
      if s.keepalive then
        some { s with
          pc := .receive
          call := .init s.call.buffSize s.call.maxSize uriRelaxed s.call.input
          events := .reads :: s.events }
      else some { s with pc := .close }
    | .close => some { s with pc := .closed, events := .closes :: s.events }
    | _ => none

variable {s t : HandleClient}

theorem received_cases (s : HandleClient) (call : RecvRequest) :
    (s.received call).keepalive = s.keepalive ∧ (s.received call).events = s.events ∧ (s.received call).call = call ∧
      ((call.pc = .returned true ∧ (s.received call).pc = .handle ∧ (s.received call).request = call.parser.data ∧
          (s.received call).response =
            .make call.parser.data.version (call.parser.data.close || !s.keepalive)) ∨
        (s.received call).pc = .close ∨ (s.received call).pc = .thrown ∨ (s.received call).pc = s.pc) := by
  unfold received
  split
  · rename_i hpc
    exact ⟨rfl, rfl, rfl, Or.inl ⟨hpc, rfl, rfl, rfl⟩⟩
  · exact ⟨rfl, rfl, rfl, Or.inr (Or.inl rfl)⟩
  · exact ⟨rfl, rfl, rfl, Or.inr (Or.inr (Or.inl rfl))⟩
  · exact ⟨rfl, rfl, rfl, Or.inr (Or.inr (Or.inr rfl))⟩

theorem step_recv {a : RecvAct} (h : s.step (.recv a) = some t) :
    s.pc = .receive ∧ ∃ call, s.call.step a = some call ∧ t = s.received call := by
  obtain ⟨hpc, h⟩ := Option.ite_none_right_eq_some.mp h
  obtain ⟨call, hcall, rfl⟩ := Option.map_eq_some_iff.mp h
  exact ⟨hpc, call, hcall, rfl⟩

theorem step_servlet {f : HttpResponse → HttpResponse} (h : s.step (.servlet f) = some t) :
    s.pc = .handle ∧ t = { s with pc := .send, response := f s.response } := by
  obtain ⟨hpc, h⟩ := Option.ite_none_right_eq_some.mp h
  exact ⟨hpc, (Option.some.inj h).symm⟩

theorem step_run {uriRelaxed : Bool} (h : s.step (.run uriRelaxed) = some t) :
    (s.pc = .send ∧ t = { s with
      pc := .loop, output := s.output ++ s.response.dump, events := .answered s.request s.response :: s.events }) ∨
    (s.pc = .loop ∧ s.keepalive = true ∧ t = { s with
      pc := .receive, call := .init s.call.buffSize s.call.maxSize uriRelaxed s.call.input,
      events := .reads :: s.events }) ∨
    (s.pc = .loop ∧ s.keepalive = false ∧ t = { s with pc := .close }) ∨
    (s.pc = .close ∧ t = { s with pc := .closed, events := .closes :: s.events }) := by
  simp only [step] at h
  split at h
  · exact Or.inl ⟨by assumption, (Option.some.inj h).symm⟩
  · split at h
    · exact Or.inr (Or.inl ⟨by assumption, by assumption, (Option.some.inj h).symm⟩)
    · rename_i hloop hkeep
      exact Or.inr (Or.inr (Or.inl ⟨hloop, Bool.eq_false_iff.mpr hkeep, (Option.some.inj h).symm⟩))
  · exact Or.inr (Or.inr (Or.inr ⟨by assumption, (Option.some.inj h).symm⟩))
  · cases h

end HandleClient
end Http
end MyHttp

import MyHttp.Http.HttpServer
import MyHttp.Lib.Run

/-! Keep-alive: what the connection line of a response says against what the server does after it. The close flag of a
    request is never changed by the parser, so every response is handed to its servlet as one that closes. -/

namespace MyHttp
namespace Http

open Lib.CString Lib.Run

/-- The connection line of a response as it is sent. -/
def HttpResponse.connection (r : HttpResponse) : Option Bytes := Headers.get r.headerLines (ascii "connection")

/-- A request has such a connection header. -/
def HttpRequest.asks (r : HttpRequest) (value : String) : Bool :=
  (r.headers.get (ascii "connection")).any (strcaseEquiv · (ascii value))

/-- The server reads on behind a response just when the response says so, and closes otherwise. -/
structure Agreed (response : HttpResponse) (next : ServerEvent) : Prop where
  again : next = .reads ↔ response.connection = some (ascii "keep-alive")
  closes : next ≠ .reads → next = .closes

/-- The response says what the header of the request says. -/
structure Answers (request : HttpRequest) (response : HttpResponse) : Prop where
  keeps : request.asks "keep-alive" = true → response.connection = some (ascii "keep-alive")
  ends : request.asks "close" = true → response.connection = some (ascii "close")

theorem HttpResponse.connection_eq (r : HttpResponse) :
    r.connection = some (ascii (if r.close then "close" else "keep-alive")) := r.get_headerLines

theorem agreed_iff {response : HttpResponse} {keepalive : Bool} :
    Agreed response (if keepalive then .reads else .closes) ↔ response.close = !keepalive := by
  have hdiff : ascii "close" ≠ ascii "keep-alive" := by decide
  constructor
  · rintro ⟨hagain, -⟩
    rw [response.connection_eq] at hagain
    cases keepalive <;> cases hclose : response.close <;> simp_all
  · intro hclose
    refine ⟨?_, fun hnext => ?_⟩
    · rw [response.connection_eq, hclose]
      cases keepalive <;> simp [hdiff]
    · cases keepalive
      · rfl
      · exact absurd rfl hnext

/-- With keep-alive set and a response that agrees, the header of the request is answered just when it is not close. -/
theorem answers_iff {request : HttpRequest} {response : HttpResponse} (h : response.close = false) :
    Answers request response ↔ request.asks "close" = false := by
  have hdiff : ascii "keep-alive" ≠ ascii "close" := by decide
  have hsent : response.connection = some (ascii "keep-alive") := by
    rw [response.connection_eq, h]
    rfl
  constructor
  · rintro ⟨-, hends⟩
    by_contra hheader
    exact hdiff (Option.some.inj (hsent.symm.trans (hends (Bool.not_eq_false _ ▸ hheader))))
  · intro hheader
    refine ⟨fun _ => hsent, fun hclose => ?_⟩
    rw [hheader] at hclose
    cases hclose

namespace HandleClient

variable {s s' : HandleClient}

/-- All responses of a connection agree with what the server does. -/
structure Agrees (s : HandleClient) : Prop where
  next : ∀ after next request response before,
    s.events = after ++ next :: .answered request response :: before → Agreed response next
  answers : s.keepalive = true → ∀ request response, .answered request response ∈ s.events → Answers request response

/-- The servlet leaves the close flag at the opposite of `m_isKeepalive`, and with keep-alive set no request that asks for
    close is answered. -/
def FlagKept (s : HandleClient) : HandleAct → Prop
  | .servlet f => (f s.response).close = !s.keepalive ∧ (s.keepalive = true → s.request.asks "close" = false)
  | _ => True

instance (s : HandleClient) (a : HandleAct) : Decidable (FlagKept s a) := by
  induction a using HandleAct.casesOn <;> unfold FlagKept <;> infer_instance

/-! ### What the loop does -/

/-- The events of the loop: behind each response it goes on or closes as `m_isKeepalive` says. -/
structure Looped (s : HandleClient) : Prop where
  next : ∀ after next request response before,
    s.events = after ++ next :: .answered request response :: before → next = if s.keepalive then .reads else .closes
  last : ∀ request response before, s.events = .answered request response :: before →
    s.pc = .loop ∨ s.pc = .close ∧ s.keepalive = false

theorem looped_init (keepalive : Bool) (buffSize maxSize : Nat) (uriRelaxed : Bool) (input : Bytes) :
    Looped (init keepalive buffSize maxSize uriRelaxed input) := by
  constructor
  · intro after next request response before h
    have hlen := congrArg List.length h
    simp [init] at hlen
    omega
  · intro request response before h
    cases h

theorem looped_cons {x : ServerEvent} (h : Looped s) (hkeep : s'.keepalive = s.keepalive) (hevents : s'.events = x :: s.events)
    (hx : ∀ request response before, s.events = .answered request response :: before →
      x = if s.keepalive then .reads else .closes)
    (hlast : ∀ request response, x = .answered request response → s'.pc = .loop) : Looped s' := by
  constructor
  · intro after next request response before heq
    rw [hevents] at heq
    rw [hkeep]
    cases after with
    | nil =>
      obtain ⟨rfl, htail⟩ := List.cons.inj heq
      exact hx _ _ _ htail
    | cons y after =>
      obtain ⟨-, htail⟩ := List.cons.inj heq
      exact h.next _ _ _ _ _ htail
  · intro request response before heq
    rw [hevents] at heq
    obtain ⟨rfl, -⟩ := List.cons.inj heq
    exact Or.inl (hlast _ _ rfl)

theorem looped_same (h : Looped s) (hkeep : s'.keepalive = s.keepalive) (hevents : s'.events = s.events)
    (hpc : ∀ request response before, s.events = .answered request response :: before →
      s'.pc = .loop ∨ s'.pc = .close ∧ s'.keepalive = false) : Looped s' := by
  constructor
  · intro after next request response before heq
    rw [hkeep]
    exact h.next _ _ _ _ _ (hevents ▸ heq)
  · intro request response before heq
    exact hpc _ _ _ (hevents ▸ heq)

/-- A response is the latest event only before the next one is decided. -/
theorem Looped.elsewhere (h : Looped s) (hloop : s.pc ≠ .loop) (hclose : s.pc ≠ .close) {request : HttpRequest}
    {response : HttpResponse} {before : List ServerEvent} (heq : s.events = .answered request response :: before) :
    False := by
  rcases h.last _ _ _ heq with hpc | ⟨hpc, -⟩
  · exact hloop hpc
  · exact hclose hpc

theorem Looped.step (h : Looped s) {a : HandleAct} (hs : s.step a = some s') : Looped s' := by
  cases a with
  | recv a =>
    obtain ⟨hpc, call, -, rfl⟩ := step_recv hs
    obtain ⟨hkeep, hevents, -⟩ := s.received_cases call
    refine looped_same h hkeep hevents fun request response before heq => ?_
    exact (h.elsewhere (by rw [hpc]; nofun) (by rw [hpc]; nofun) heq).elim
  | servlet f =>
    obtain ⟨hpc, rfl⟩ := step_servlet hs
    refine looped_same h rfl rfl fun request response before heq => ?_
    exact (h.elsewhere (by rw [hpc]; nofun) (by rw [hpc]; nofun) heq).elim
  | run uriRelaxed =>
    rcases step_run hs with ⟨hpc, rfl⟩ | ⟨hpc, hkeep, rfl⟩ | ⟨hpc, hkeep, rfl⟩ | ⟨hpc, rfl⟩
    · refine looped_cons h rfl rfl (fun request response before heq => ?_) fun _ _ _ => rfl
      exact (h.elsewhere (by rw [hpc]; nofun) (by rw [hpc]; nofun) heq).elim
    · refine looped_cons h rfl rfl (fun request response before heq => ?_) nofun
      rw [hkeep]
      rfl
    · exact looped_same h rfl rfl fun request response before heq => Or.inr ⟨rfl, hkeep⟩
    · refine looped_cons h rfl rfl (fun request response before heq => ?_) nofun
      rcases h.last _ _ _ heq with hloop | ⟨-, hkeep⟩
      · rw [hpc] at hloop
        cases hloop
      · rw [hkeep]
        rfl

/-! ### What the responses say -/

/-- A response that is sent, or is to be sent, has its flag at the opposite of `m_isKeepalive`. -/
def Flagged (s : HandleClient) (request : HttpRequest) (response : HttpResponse) : Prop :=
  response.close = !s.keepalive ∧ (s.keepalive = true → request.asks "close" = false)

structure Sends (s : HandleClient) : Prop where
  sent : ∀ request response, .answered request response ∈ s.events → Flagged s request response
  ready : s.pc = .send → Flagged s s.request s.response

theorem Sends.step (h : Sends s) {a : HandleAct} (hok : FlagKept s a) (hs : s.step a = some s') : Sends s' := by
  cases a with
  | recv a =>
    obtain ⟨hpc, call, -, rfl⟩ := step_recv hs
    obtain ⟨hkeep, hevents, -, hcases⟩ := s.received_cases call
    constructor
    · intro request response hmem
      rw [hevents] at hmem
      unfold Flagged
      rw [hkeep]
      exact h.sent _ _ hmem
    · intro hsend
      rcases hcases with ⟨-, hpc', -⟩ | hpc' | hpc' | hpc' <;> rw [hsend] at hpc'
      · cases hpc'
      · cases hpc'
      · cases hpc'
      · rw [hpc] at hpc'
        cases hpc'
  | servlet f =>
    obtain ⟨-, rfl⟩ := step_servlet hs
    exact ⟨h.sent, fun _ => hok⟩
  | run uriRelaxed =>
    rcases step_run hs with ⟨hpc, rfl⟩ | ⟨-, -, rfl⟩ | ⟨-, -, rfl⟩ | ⟨-, rfl⟩
    · refine ⟨fun request response hmem => ?_, nofun⟩
      rcases List.mem_cons.mp hmem with heq | hmem
      · obtain ⟨rfl, rfl⟩ := ServerEvent.answered.inj heq
        exact h.ready hpc
      · exact h.sent _ _ hmem
    · refine ⟨fun request response hmem => ?_, nofun⟩
      exact h.sent _ _ ((List.mem_cons.mp hmem).resolve_left nofun)
    · exact ⟨h.sent, nofun⟩
    · refine ⟨fun request response hmem => ?_, nofun⟩
      exact h.sent _ _ ((List.mem_cons.mp hmem).resolve_left nofun)

/-! ### What a servlet is handed -/

/-- No response is handed to a servlet without the close flag. -/
structure Handed (s : HandleClient) : Prop where
  call : s.call.parser.data.close = true
  handle : s.pc = .handle → s.request.close = true ∧ s.response.close = true

theorem Handed.step (h : Handed s) {a : HandleAct} (hs : s.step a = some s') : Handed s' := by
  cases a with
  | recv a =>
    obtain ⟨hpc, call, hcall, rfl⟩ := step_recv hs
    obtain ⟨-, -, hcall', hcases⟩ := s.received_cases call
    have hclose : call.parser.data.close = true := (RecvRequest.step_frame hcall).2.2.trans h.call
    refine ⟨by rw [hcall', hclose], fun hhandle => ?_⟩
    rcases hcases with ⟨-, -, hrequest, hresponse⟩ | hpc' | hpc' | hpc'
    · rw [hrequest, hresponse]
      exact ⟨hclose, Bool.or_eq_true_iff.mpr (Or.inl hclose)⟩
    all_goals rw [hhandle] at hpc'
    · cases hpc'
    · cases hpc'
    · rw [hpc] at hpc'
      cases hpc'
  | servlet f =>
    obtain ⟨-, rfl⟩ := step_servlet hs
    exact ⟨h.call, nofun⟩
  | run uriRelaxed =>
    rcases step_run hs with ⟨-, rfl⟩ | ⟨-, -, rfl⟩ | ⟨-, -, rfl⟩ | ⟨-, rfl⟩
    · exact ⟨h.call, nofun⟩
    · exact ⟨rfl, nofun⟩
    · exact ⟨h.call, nofun⟩
    · exact ⟨h.call, nofun⟩

variable {ok : HandleClient → HandleAct → Prop} {keepalive uriRelaxed : Bool} {buffSize maxSize : Nat} {input : Bytes}

/-- In every run whose servlets meet the condition, the responses agree with what the server does. -/
theorem keepAlive_agrees (h : Reach step FlagKept (init keepalive buffSize maxSize uriRelaxed input) s) : Agrees s := by
  have hlooped : Looped s :=
    h.invariant (P := Looped) (looped_init keepalive buffSize maxSize uriRelaxed input) fun _ _ _ hi _ hs => hi.step hs
  have hsends : Sends s := by
    refine h.invariant (P := Sends) ⟨fun request response hmem => ?_, nofun⟩ fun _ _ _ hi hok hs => hi.step hok hs
    exact nomatch List.mem_singleton.mp hmem
  constructor
  · intro after next request response before heq
    have hmem : .answered request response ∈ s.events := by
      rw [heq]
      simp
    rw [hlooped.next _ _ _ _ _ heq]
    exact agreed_iff.mpr (hsends.sent _ _ hmem).1
  · intro hkeep request response hmem
    obtain ⟨hclose, hheader⟩ := hsends.sent _ _ hmem
    rw [hkeep] at hclose
    exact (answers_iff hclose).mpr (hheader hkeep)

/-- Two requests are answered by a servlet that clears the flag, then the client closes. -/
theorem keepAlive_agrees_two : ∃ s, s.pc = .closed ∧ s.events.length = 6 ∧ Agrees s := by
  let request := ascii "GET / HTTP/1.1\r\nConnection: keep-alive\r\n\r\n"
  let acts := [HandleAct.recv (.read 42), .recv .run, .recv .run, .servlet (fun r => { r with close := false }), .run false,
    .run false]
  let s := (exec step FlagKept (init true 64 (2 ^ 62) false (request ++ request))
    (acts ++ acts ++ [.recv (.read 0), .run false])).get (by decide +kernel)
  have h : Reach step FlagKept (init true 64 (2 ^ 62) false (request ++ request)) s :=
    reach_of_exec (Option.some_get _).symm
  exact ⟨s, by decide +kernel, by decide +kernel, keepAlive_agrees h⟩

/-- With keep-alive set, a servlet that leaves the flag alone: the response says close, and the server reads on. -/
theorem closes_and_reads : ¬∀ keepalive buffSize maxSize uriRelaxed input s,
    Reach step (fun _ _ => True) (init keepalive buffSize maxSize uriRelaxed input) s → Agrees s := by
  intro h
  let s := (exec step (fun _ _ => True) (init true 64 (2 ^ 62) false
    (ascii "GET / HTTP/1.1\r\nConnection: keep-alive\r\n\r\n"))
    [.recv (.read 42), .recv .run, .recv .run, .servlet id, .run false, .run false]).get (by decide +kernel)
  have hr : Reach step (fun _ _ => True) (init true 64 (2 ^ 62) false _) s := reach_of_exec (Option.some_get _).symm
  have hevents : s.events = [] ++ .reads :: .answered s.request s.response :: [.reads] := by decide +kernel
  have hagain := (h _ _ _ _ _ s hr).next _ _ _ _ _ hevents
  have hsent : s.response.connection = some (ascii "close") := by decide +kernel
  exact absurd (hsent.symm.trans (hagain.again.mp rfl)) (by decide)

end HandleClient
end Http
end MyHttp

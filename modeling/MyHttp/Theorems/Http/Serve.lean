import MyHttp.Http.Serve
import MyHttp.Theorems.Http.BackToBack

/-! The server on a whole connection: along every run in which the read with a head has all of it and nothing of the next
    request, each request is answered once, in order, by the servlet of its path. -/

namespace MyHttp
namespace Http
namespace HandleClient

open Lib.CString Lib.Run HttpRequestParser
open Session (InCall)
open RecvRequest (Sized onTrack_init)

variable {relaxed : Bool} {before after rest requests : List (Message relaxed)} {r : Message relaxed} {s t : HandleClient}
  {servlet : Servlet}

/-! ### The places of the loop -/

/-- A call that has left what the client sends next. -/
structure Leaves (rest : List (Message relaxed)) (call : RecvRequest) : Prop where
  input : call.input = rest.flatMap Message.bytes
  buffer : 0 < call.buffSize ∧ call.buffSize < 2 ^ 31
  bodies : ∀ r ∈ rest, r.body.length ≤ call.maxSize
  size : call.maxSize < 2 ^ 63

/-- A call of `recvRequest` on the next request, or on a connection that the client closes. -/
def Receives (before after : List (Message relaxed)) (call : RecvRequest) : Prop :=
  match after with
  | r :: rest => InCall before r rest ⟨call, before.map fun r => some r.request, rest.length⟩ ∧ ∀ b, call.pc ≠ .returned b
  | [] => call.pc = .headRead ∧ call.input = []

/-- The requests that a server answers. -/
def served (keepalive : Bool) (requests : List (Message relaxed)) : List (Message relaxed) :=
  if keepalive then requests else requests.take 1

/-- What the loop has at each place, when the requests `before` are answered. -/
def Place (servlet : Servlet) (before after : List (Message relaxed)) (s : HandleClient) : Prop :=
  match s.pc with
  | .receive => (s.keepalive = true ∨ before = []) ∧ Receives before after s.call
  | .handle =>
    (s.keepalive = true ∨ before = []) ∧
      ∃ r rest, after = r :: rest ∧ s.request = r.request ∧ s.response = .make r.request.version true ∧ Leaves rest s.call
  | .send =>
    (s.keepalive = true ∨ before = []) ∧
      ∃ r rest, after = r :: rest ∧ s.request = r.request ∧ s.response = answer servlet r.request ∧ Leaves rest s.call
  | .loop => (s.keepalive = true ∨ before.length = 1) ∧ Leaves after s.call
  | .close | .closed => before = served s.keepalive (before ++ after)
  | .thrown => False

/-- Some of the requests are answered, and the others come after them. -/
structure Serving (servlet : Servlet) (before after : List (Message relaxed)) (s : HandleClient) : Prop where
  answered : s.answered = before.map Message.request
  output : s.output = s.answered.flatMap fun request => (answer servlet request).dump
  place : Place servlet before after s

theorem receives_init {call : RecvRequest} (h : Leaves after call) (before : List (Message relaxed)) :
    Receives before after (.init call.buffSize call.maxSize relaxed call.input) := by
  obtain ⟨hinput, hbuffer, hbodies, hsize⟩ := h
  cases after with
  | nil => exact ⟨rfl, hinput⟩
  | cons r rest =>
    obtain ⟨hbody, hrest⟩ := List.forall_mem_cons.mp hbodies
    have hsized : Sized r.body (.init call.buffSize call.maxSize relaxed call.input) := ⟨hbuffer.1, hbuffer.2, hbody, hsize⟩
    rw [hinput] at hsized ⊢
    exact ⟨⟨rfl, rfl, hrest, onTrack_init hsized r.sent.isRequest, rfl, fun _ => rfl⟩, nofun⟩

/-- The close flag of a request is always that of the constructor. -/
theorem close_request (r : Message relaxed) : r.request.close = true := data_run.1

/-! ### Steps -/

theorem answered_cons {x : ServerEvent} (h : t.events = x :: s.events) : t.answered = s.answered ++ x.request.toList := by
  unfold HandleClient.answered
  rw [h]
  cases x <;> simp [ServerEvent.request, List.filterMap_cons]

theorem answered_same (h : t.events = s.events) : t.answered = s.answered := by
  unfold HandleClient.answered
  rw [h]

theorem served_all (h : s.keepalive = true ∨ before = []) (hlast : after = []) : before = served s.keepalive (before ++ after) := by
  subst hlast
  rcases h with hkeep | rfl
  · rw [hkeep, List.append_nil]
    rfl
  · cases s.keepalive <;> rfl

/-- The call of `recvRequest` goes on, or it ends with the request that was sent, or with none when the client has sent
    all. -/
theorem Serving.recv (h : Serving servlet before after s) {a : RecvAct} (hok : Apart (before ++ after) s (.recv a))
    (hs : s.step (.recv a) = some t) : Serving servlet before after t := by
  obtain ⟨hpc, call, hcall, rfl⟩ := step_recv hs
  obtain ⟨hanswered, houtput, hplace⟩ := h
  simp only [Place, hpc] at hplace
  obtain ⟨hkeep, hreceives⟩ := hplace
  have hsame : (s.received call).answered = s.answered := answered_same (s.received_cases call).2.1
  have hout : (s.received call).output = s.output := by
    unfold received
    split <;> rfl
  refine ⟨hsame.trans hanswered, by rw [hout, hsame, houtput], ?_⟩
  cases after with
  | nil =>
    obtain ⟨hread, hinput⟩ := hreceives
    have hreturned : call.pc = .returned false := by
      cases a with
      | read count =>
        obtain ⟨hr, rfl, -⟩ := RecvRequest.step_read hcall
        have hcount : count = 0 := by simpa [RecvRequest.readable, hinput] using hr
        simp [RecvRequest.read, hcount]
      | run =>
        rcases RecvRequest.step_run hcall with ⟨hplace, -⟩ | ⟨hplace, -⟩ <;> cases hread.symm.trans hplace
    have hend : (s.received call).pc = .close := by simp [received, hreturned]
    simp only [Place, hend]
    rw [(s.received_cases call).1]
    exact served_all hkeep rfl
  | cons r rest =>
    obtain ⟨hin, -⟩ := hreceives
    have hsession : s.session.results = before.map fun r => some r.request := by
      simp [session, hanswered]
    have hapart : Session.Apart (before ++ r :: rest) ⟨s.call, before.map fun r => some r.request, rest.length⟩ (.recv a) := by
      rw [← hsession]
      exact hok
    have hnext := hin.recv hapart hcall
    have hright := hnext.track.right
    by_cases hreturned : ∃ b, call.pc = .returned b
    · obtain ⟨b, hb⟩ := hreturned
      obtain ⟨rfl, hdata⟩ := hright.returned b hb
      have htrack := hnext.track.track
      simp only [RecvRequest.Track, hb] at htrack
      have hsized := hnext.track.sized
      have hleaves : Leaves rest call :=
        ⟨htrack.2.2, ⟨hsized.nonempty, hsized.buffSize⟩, hnext.bodies, hsized.maxSize⟩
      have hclose : call.parser.data.close = true := by
        rw [hdata]
        exact close_request r
      simp only [received, hb, Place]
      refine ⟨hkeep, r, rest, rfl, hdata, ?_, hleaves⟩
      rw [hclose, hdata, Bool.true_or]
      rfl
    · have hrunning : ∀ b, call.pc ≠ .returned b := not_exists.mp hreturned
      have hreceived : s.received call = { s with call } := by
        unfold received
        split
        · exact absurd (by assumption) (hrunning true)
        · exact absurd (by assumption) (hrunning false)
        · exact absurd (by assumption) hright.thrown
        · rfl
      rw [hreceived]
      simp only [Place, hpc]
      exact ⟨hkeep, hnext, hrunning⟩

/-- The servlet, the response and the condition of the loop. -/
theorem Serving.run (h : Serving servlet before after s) (hs : s.serve servlet relaxed .run = some t) :
    ∃ before' after', before ++ after = before' ++ after' ∧ Serving servlet before' after' t := by
  obtain ⟨hanswered, houtput, hplace⟩ := h
  simp only [serve] at hs
  split at hs
  · rename_i hpc
    obtain ⟨-, rfl⟩ := step_servlet hs
    simp only [Place, hpc] at hplace
    obtain ⟨hkeep, r, rest, rfl, hrequest, hresponse, hleaves⟩ := hplace
    refine ⟨before, r :: rest, rfl, hanswered, houtput, hkeep, r, rest, rfl, hrequest, ?_, hleaves⟩
    rw [hresponse, hrequest]
    rfl
  · rcases step_run hs with ⟨hpc, rfl⟩ | ⟨hpc, hkeep, rfl⟩ | ⟨hpc, hkeep, rfl⟩ | ⟨hpc, rfl⟩ <;>
      simp only [Place, hpc] at hplace
    · obtain ⟨hkeep, r, rest, rfl, hrequest, hresponse, hleaves⟩ := hplace
      have hmore : ∀ t : HandleClient, t.events = .answered s.request s.response :: s.events →
          t.answered = s.answered ++ [s.request] := fun t ht => answered_cons ht
      refine ⟨before ++ [r], rest, by simp, ?_, ?_, ?_, hleaves⟩
      · rw [hmore _ rfl, hanswered, hrequest, List.map_append]
        rfl
      · rw [hmore _ rfl, List.flatMap_append, ← houtput, hresponse, hrequest]
        simp
      · rcases hkeep with hkeep | rfl
        · exact .inl hkeep
        · exact .inr rfl
    · have hreads : ∀ t : HandleClient, t.events = .reads :: s.events → t.answered = s.answered := fun t ht => by
        rw [answered_cons ht]
        exact List.append_nil _
      refine ⟨before, after, rfl, (hreads _ rfl).trans hanswered, by rw [hreads _ rfl]; exact houtput, .inl hkeep, ?_⟩
      exact receives_init hplace.2 before
    · refine ⟨before, after, rfl, hanswered, houtput, ?_⟩
      rw [hkeep] at hplace
      have hone : before.length = 1 := hplace.1.resolve_left Bool.false_ne_true
      simp only [Place, served, hkeep]
      rw [if_neg Bool.false_ne_true, List.take_left' hone]
    · have hcloses : ∀ t : HandleClient, t.events = .closes :: s.events → t.answered = s.answered := fun t ht => by
        rw [answered_cons ht]
        exact List.append_nil _
      exact ⟨before, after, rfl, (hcloses _ rfl).trans hanswered, by rw [hcloses _ rfl]; exact houtput, hplace⟩

/-! ### Runs -/

theorem remaining_received {call : RecvRequest} (hpc : s.pc = .receive) :
    (s.received call).remaining = 10 * call.input.length +
      match call.pc with
      | .returned true => 5
      | .returned false => 1
      | .fault => 0
      | place => ahead place := by
  rcases hcall : call.pc with _ | _ | _ | _ | _ | _
  case returned b => cases b <;> simp [received, remaining, hcall]
  all_goals simp [received, remaining, hcall, hpc]

/-- Every step brings the end nearer: a read takes bytes, and what is not a read goes on to the next read. -/
theorem remaining_step {a : ServeAct} (hs : s.serve servlet relaxed a = some t) : t.remaining < s.remaining := by
  cases a with
  | recv a =>
    obtain ⟨hpc, call, hcall, rfl⟩ := step_recv hs
    rw [remaining_received hpc]
    have hbefore : s.remaining = 10 * s.call.input.length + ahead s.call.pc := by simp only [remaining, hpc]
    rw [hbefore]
    cases a with
    | read count =>
      obtain ⟨hr, rfl, hplace⟩ := RecvRequest.step_read hcall
      rw [RecvRequest.read_input _ hplace, List.length_drop]
      have hsome : 0 < count → 0 < s.call.input.length := fun hcount => by
        by_contra hnone
        have hnil : s.call.input = [] := List.eq_nil_of_length_eq_zero (by omega)
        have hzero : count = 0 := by simpa [RecvRequest.readable, hnil] using hr
        omega
      by_cases hcount : count = 0
      · have hnone : (s.call.read count).pc = .returned false := by simp [RecvRequest.read, hcount]
        rcases hplace with hplace | hplace <;> simp only [hnone, hplace, ahead] <;> omega
      · have hpos := hsome (Nat.pos_of_ne_zero hcount)
        rcases s.call.read_pc count hplace with ⟨b, hb⟩ | ⟨-, ⟨hplace, hnext⟩ | ⟨hplace, hnext⟩⟩
        · cases b <;> rcases hplace with hplace | hplace <;> simp only [hb, hplace, ahead] <;> omega
        · simp only [hnext, hplace, ahead]
          omega
        · simp only [hnext, hplace, ahead]
          omega
    | run =>
      rcases RecvRequest.step_run hcall with ⟨hplace, rfl⟩ | ⟨hplace, rfl⟩
      · rw [RecvRequest.headParse_input]
        rcases s.call.headParse_pc with hnext | hnext | hnext | hnext <;> simp only [hnext, hplace, ahead] <;> omega
      · rw [RecvRequest.length_input]
        rcases s.call.length_pc with hnext | hnext | hnext <;> simp only [hnext, hplace, ahead] <;> omega
  | run =>
    simp only [serve] at hs
    split at hs
    · rename_i hpc
      obtain ⟨-, rfl⟩ := step_servlet hs
      simp only [remaining, hpc]
      omega
    · rcases step_run hs with ⟨hpc, rfl⟩ | ⟨hpc, -, rfl⟩ | ⟨hpc, -, rfl⟩ | ⟨hpc, rfl⟩ <;>
        simp only [remaining, hpc, RecvRequest.init, ahead] <;> omega

/-- The requests are answered in order, each by its servlet and none twice; when the connection is closed, none is
    missing of those that the server answers. -/
structure Served (servlet : Servlet) (requests : List (Message relaxed)) (s : HandleClient) : Prop where
  thrown : s.pc ≠ .thrown
  answered : s.answered = (requests.take s.answered.length).map Message.request
  output : s.output = s.answered.flatMap fun request => (answer servlet request).dump
  all : s.pc = .closed → s.answered = (served s.keepalive requests).map Message.request
  goesOn : s.pc ≠ .closed → ∃ a t, s.serve servlet relaxed a = some t

theorem Serving.goesOn (h : Serving servlet before after s) (hclosed : s.pc ≠ .closed) :
    ∃ a t, s.serve servlet relaxed a = some t := by
  have hplace := h.place
  cases hpc : s.pc <;> simp only [Place, hpc] at hplace
  case receive =>
    have hstep : ∃ a call, s.call.step a = some call := by
      obtain ⟨-, hreceives⟩ := hplace
      cases after with
      | nil =>
        have hnone : s.call.readable 0 = true := by simp [RecvRequest.readable, hreceives.2]
        exact ⟨.read 0, _, by simp only [RecvRequest.step, hreceives.1, hnone]; rfl⟩
      | cons r rest => exact hreceives.1.track.right.goesOn hreceives.2
    obtain ⟨a, call, hcall⟩ := hstep
    exact ⟨.recv a, s.received call, by simp [serve, step, hpc, hcall]⟩
  case handle => exact ⟨.run, _, by simp only [serve, hpc, step, if_true]; rfl⟩
  case loop =>
    by_cases hkeep : s.keepalive = true
    · exact ⟨.run, _, by simp only [serve, hpc, reduceCtorEq, step, hkeep, if_false, if_true]; rfl⟩
    · exact ⟨.run, _, by simp only [serve, hpc, reduceCtorEq, step, hkeep, if_false]; rfl⟩
  case closed => exact absurd hpc hclosed
  all_goals exact ⟨.run, _, by simp only [serve, hpc, reduceCtorEq, step, if_false]; rfl⟩

theorem Serving.served (h : Serving servlet before after s) : Served servlet (before ++ after) s := by
  have hplace := h.place
  have hlen : s.answered.length = before.length := by rw [h.answered, List.length_map]
  refine ⟨fun hpc => ?_, ?_, h.output, fun hpc => ?_, h.goesOn⟩
  · simp only [Place, hpc] at hplace
  · rw [hlen, List.take_left]
    exact h.answered
  · simp only [Place, hpc] at hplace
    rw [h.answered, ← hplace]

theorem served_of_run {keepalive : Bool} {buffSize maxSize : Nat} {as : List ServeAct}
    (hbuff : 0 < buffSize ∧ buffSize < 2 ^ 31) (hbodies : ∀ r ∈ requests, r.body.length ≤ maxSize) (hmax : maxSize < 2 ^ 63)
    (hrun : exec (serve servlet relaxed) (Apart requests)
      (init keepalive buffSize maxSize relaxed (requests.flatMap Message.bytes)) as = some s) : Served servlet requests s := by
  have hinit : Leaves requests (.init buffSize maxSize relaxed (requests.flatMap Message.bytes)) :=
    ⟨rfl, hbuff, hbodies, hmax⟩
  have hstart : Serving servlet [] requests (init keepalive buffSize maxSize relaxed (requests.flatMap Message.bytes)) :=
    ⟨rfl, rfl, .inr rfl, receives_init hinit []⟩
  have hserving : ∃ before after, requests = before ++ after ∧ Serving servlet before after s := by
    refine (reach_of_exec hrun).invariant
      (P := fun s => ∃ before after, requests = before ++ after ∧ Serving servlet before after s) ⟨[], requests, rfl, hstart⟩
      fun s a t hi hok hs => ?_
    obtain ⟨before, after, rfl, hserving⟩ := hi
    cases a with
    | recv a => exact ⟨before, after, rfl, hserving.recv hok hs⟩
    | run => exact hserving.run hs
  obtain ⟨before, after, rfl, hserving⟩ := hserving
  exact hserving.served

end HandleClient
end Http
end MyHttp

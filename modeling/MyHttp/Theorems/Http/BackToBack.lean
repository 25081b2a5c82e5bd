import MyHttp.Theorems.Http.RequestFraming

/-! Requests sent back to back: along every run in which the read with a head has all of it and nothing of the next
    request, the calls return the requests one after the other. -/

namespace MyHttp
namespace Http
namespace Session

open Lib.CString Lib.Run Lib.Scan HttpRequestParser
open RecvRequest (OnTrack Track Sized Aligned position step_frame step_head step_uriRelaxed onTrack_init headParse_input)

variable {relaxed : Bool} {before after requests : List (Message relaxed)} {r : Message relaxed} {s s' : Session}

/-- A call on the request `r`, those before it answered and those after it still with the client. -/
structure InCall (before : List (Message relaxed)) (r : Message relaxed) (after : List (Message relaxed)) (s : Session) :
    Prop where
  results : s.results = before.map fun r => some r.request
  left : s.left = after.length
  bodies : ∀ r ∈ after, r.body.length ≤ s.call.maxSize
  track : OnTrack relaxed r.head r.body (after.flatMap Message.bytes) s.call
  uriRelaxed : s.call.parser.parser.uriRelaxed = relaxed
  begins : s.call.pc = .headRead ∨ s.call.pc = .headParse →
    s.call.data ++ s.call.input = r.head ++ r.body ++ after.flatMap Message.bytes

theorem inCall_init {buffSize maxSize : Nat} (hbuff : 0 < buffSize ∧ buffSize < 2 ^ 31)
    (hbodies : ∀ r' ∈ r :: after, r'.body.length ≤ maxSize) (hmax : maxSize < 2 ^ 63) :
    InCall [] r after (init buffSize maxSize relaxed ((r :: after).flatMap Message.bytes) (r :: after).length) := by
  obtain ⟨hbody, hafter⟩ := List.forall_mem_cons.mp hbodies
  exact ⟨rfl, rfl, hafter, onTrack_init ⟨hbuff.1, hbuff.2, hbody, hmax⟩ r.sent.isRequest, rfl, fun _ => rfl⟩

/-! ### Steps -/

theorem apart_at (before after : List (Message relaxed)) (r : Message relaxed)
    (h : s.results = before.map fun r => some r.request) :
    (before ++ r :: after)[s.results.length]? = some r := by
  rw [h, List.length_map, List.getElem?_append_right (Nat.le_refl _), Nat.sub_self, List.getElem?_cons_zero]

/-- A read with a whole head and nothing of the next request is aligned with the request. -/
theorem InCall.aligned (h : InCall before r after s) {a : RecvAct} (hok : Apart (before ++ r :: after) s (.recv a)) :
    Aligned r.head r.body (after.flatMap Message.bytes) s.call a := by
  cases a with
  | read count => trivial
  | run =>
    simp only [Apart, apart_at before after r h.results] at hok
    simp only [Aligned]
    cases hpc : s.call.pc <;> simp only [hpc] at hok ⊢
    case headParse =>
      obtain ⟨hhead, hend⟩ := hok
      have hbegins := h.begins (Or.inr hpc)
      have hlen := congrArg List.length hbegins
      simp only [List.length_append] at hlen
      have hposition : s.call.position (r.head ++ r.body ++ after.flatMap Message.bytes) = 0 := by
        simp only [position, List.length_append]
        omega
      have hbytes : r.bytes.length = r.head.length + r.body.length := List.length_append
      obtain ⟨y, hy⟩ : r.head <+: s.call.data := by
        rw [List.append_assoc] at hbegins
        exact List.prefix_of_prefix_length_le (List.prefix_append ..) ⟨s.call.input, hbegins⟩ hhead
      obtain ⟨hsized, htrack⟩ := h.track
      simp only [Track, hpc] at htrack
      obtain ⟨done, todo, heq, -, hinput, hbegun, -⟩ := htrack
      have hdone : done = [] := by
        have htodo := congrArg List.length hinput
        have hall := congrArg List.length heq
        simp only [List.length_append] at htodo hall
        exact List.length_eq_zero_iff.mp (by omega)
      have hcs : s.call.parser.parser.cs = 1 := by
        have hthrough := hbegun.cs
        rw [hdone] at hthrough
        exact (Option.some.inj hthrough).symm
      rw [hposition, h.uriRelaxed, hcs, List.take_zero]
      exact ⟨by omega, fun q hq => r.sent.isRequest.kept hy.symm hq⟩
    case length => exact hok

/-- A head that is whole in a read does not go on in another. -/
theorem InCall.headParse_done (h : InCall before r after s) (hok : Apart (before ++ r :: after) s (.recv .run))
    (hpc : s.call.pc = .headParse) : s.call.headParse.pc ≠ .headRead := by
  intro hnext
  obtain ⟨-, htrack⟩ := h.track.headParse r.sent.isRequest hpc (h.aligned hok)
  simp only [Track, hnext] at htrack
  obtain ⟨done, todo, -, htodo, hinput, -⟩ := htrack
  simp only [Apart, apart_at before after r h.results, hpc] at hok
  have hlen := congrArg List.length (h.begins (Or.inr hpc))
  have hleft := congrArg List.length hinput
  rw [headParse_input] at hleft
  simp only [List.length_append] at hlen hleft
  have htodo' : 0 < todo.length := List.length_pos_iff.mpr htodo
  omega

theorem InCall.recv (h : InCall before r after s) {a : RecvAct} {call : RecvRequest}
    (hok : Apart (before ++ r :: after) s (.recv a)) (hs : s.call.step a = some call) :
    InCall before r after { s with call } := by
  obtain ⟨-, hmax, -⟩ := step_frame hs
  have htrack := h.track.step r.sent (h.aligned hok) hs
  refine ⟨h.results, h.left, ?_, htrack, (step_uriRelaxed hs).trans h.uriRelaxed, fun hpc => ?_⟩
  · dsimp only
    rw [hmax]
    exact h.bodies
  · rcases step_head hs hpc with ⟨count, rfl, rfl, hplace, hcount, -⟩ | ⟨rfl, rfl, hplace, hnext⟩
    · exact (h.track.headRead_bytes hplace hcount).trans (h.begins (Or.inl hplace))
    · exact absurd hnext (h.headParse_done hok hplace)

/-- The call has returned its request, and the next one begins where the next request does. -/
theorem InCall.again (h : InCall before r after s) (hs : s.step .again = some s') :
    ∃ r' after', after = r' :: after' ∧ InCall (before ++ [r]) r' after' s' := by
  obtain ⟨hresults, hleft, hbodies, ⟨hsized, htrack⟩, hrelaxed, -⟩ := h
  simp only [Session.step] at hs
  split at hs
  case h_2 => cases hs
  case h_1 b hpc =>
    simp only [Track, hpc] at htrack
    obtain ⟨rfl, hdata, hinput⟩ := htrack
    split at hs
    case isTrue => cases hs
    case isFalse hmore =>
      cases after with
      | nil => exact absurd hleft hmore
      | cons r' after =>
        obtain ⟨hbody, hafter⟩ := List.forall_mem_cons.mp hbodies
        have hnext : Sized r'.body (RecvRequest.init s.call.buffSize s.call.maxSize relaxed s.call.input) :=
          ⟨hsized.nonempty, hsized.buffSize, hbody, hsized.maxSize⟩
        refine ⟨r', after, rfl, ?_⟩
        rw [hrelaxed, hinput] at hs
        rw [hinput] at hnext
        obtain rfl := Option.some.inj hs
        refine ⟨?_, ?_, hafter, onTrack_init hnext r'.sent.isRequest, rfl, fun _ => rfl⟩
        · rw [hresults, List.map_append]
          exact congrArg _ (congrArg (fun d => [some d]) hdata)
        · dsimp only
          rw [hleft, List.length_cons, Nat.add_sub_cancel]

/-! ### Runs -/

theorem cost_step {a : SessionAct} (h : s.step a = some s') : s'.cost < s.cost := by
  cases a with
  | recv a =>
    obtain ⟨call, hcall, rfl⟩ := Option.map_eq_some_iff.mp h
    exact Nat.add_lt_add_right (RecvRequest.cost_step hcall) _
  | again =>
    simp only [Session.step] at h
    split at h
    case h_2 => cases h
    case h_1 b hpc =>
      split at h
      case isTrue => cases h
      case isFalse hmore =>
        obtain rfl := Option.some.inj h
        simp only [cost, RecvRequest.cost, RecvRequest.init, hpc]
        omega

theorem InCall.inOrder (h : InCall before r after s) : InOrder (before ++ r :: after) s := by
  have hright := h.track.right
  have hcount : s.results.length = before.length := by rw [h.results, List.length_map]
  refine ⟨hright.thrown, ?_, fun b hpc => ?_, ?_, ?_, fun _ _ hs => cost_step hs⟩
  · rw [hcount, List.take_left]
    exact h.results
  · obtain ⟨hb, hdata⟩ := hright.returned b hpc
    have htrack := h.track.track
    simp only [Track, hpc] at htrack
    refine ⟨hb, ?_, ?_⟩
    · rw [apart_at before after r h.results, hdata]
      rfl
    · have hdrop : (before ++ r :: after).drop (before.length + 1) = after := by
        rw [List.append_cons, List.drop_left' (by rw [List.length_append, List.length_singleton])]
      rw [hcount, hdrop]
      exact htrack.2.2
  · rw [hcount, h.left, List.length_append, List.length_cons]
    omega
  · by_cases hreturned : ∃ b, s.call.pc = .returned b
    · obtain ⟨b, hpc⟩ := hreturned
      by_cases hmore : s.left = 0
      · exact Or.inr ⟨hmore, b, hpc⟩
      · exact Or.inl ⟨.again, _, by simp only [Session.step, hpc, if_neg hmore]; rfl⟩
    · obtain ⟨a, call, hs⟩ := hright.goesOn (not_exists.mp hreturned)
      exact Or.inl ⟨.recv a, { s with call }, by simp only [Session.step, hs, Option.map_some]⟩

/-- In every run in which the read with a head has all of it and nothing of the next request, the calls return the
    requests in the order in which they were sent. -/
theorem requests_in_order {buffSize maxSize : Nat} (hne : requests ≠ []) (hbuff : 0 < buffSize ∧ buffSize < 2 ^ 31)
    (hbodies : ∀ r ∈ requests, r.body.length ≤ maxSize) (hmax : maxSize < 2 ^ 63)
    (h : Reach step (Apart requests)
      (init buffSize maxSize relaxed (requests.flatMap Message.bytes) requests.length) s) :
    InOrder requests s := by
  obtain ⟨r, after, rfl⟩ := List.exists_cons_of_ne_nil hne
  have hrun : ∃ before r' after', r :: after = before ++ r' :: after' ∧ InCall before r' after' s := by
    refine h.invariant (P := fun s => ∃ before r' after', r :: after = before ++ r' :: after' ∧ InCall before r' after' s)
      ⟨[], r, after, rfl, inCall_init hbuff hbodies hmax⟩ fun s a s' hi hok hs => ?_
    obtain ⟨before, r', after', heq, hcall⟩ := hi
    rw [heq] at hok
    cases a with
    | recv a =>
      obtain ⟨call, hstep, rfl⟩ := Option.map_eq_some_iff.mp hs
      exact ⟨before, r', after', heq, hcall.recv hok hstep⟩
    | again =>
      obtain ⟨next, rest, rfl, hnext⟩ := hcall.again hs
      exact ⟨before ++ [r'], next, rest, by rw [heq, List.append_assoc, List.singleton_append], hnext⟩
  obtain ⟨before, r', after', heq, hcall⟩ := hrun
  rw [heq]
  exact hcall.inOrder

/-- Two requests, the first with its body in a read of its own. -/
theorem requests_in_order_two : ∃ (requests : List (Message false)) (s : Session), requests.length = 2 ∧
    s.call.pc = .returned true ∧ s.left = 0 ∧ InOrder requests s := by
  let first : Message false :=
    ⟨ascii "PUT /a HTTP/1.1\r\ncontent-length: 3\r\n\r\n", ascii "abc",
      ⟨⟨by decide +kernel, by decide +kernel, by decide +kernel, by decide +kernel⟩, by decide +kernel⟩⟩
  let second : Message false :=
    ⟨ascii "GET /b HTTP/1.1\r\n\r\n", [],
      ⟨⟨by decide +kernel, by decide +kernel, by decide +kernel, by decide +kernel⟩, by decide +kernel⟩⟩
  let requests := [first, second]
  let s := (exec step (Apart requests) (init 64 (2 ^ 62) false (requests.flatMap Message.bytes) 2)
    [.recv (.read 39), .recv .run, .recv .run, .recv (.read 2), .again, .recv (.read 19), .recv .run, .recv .run]).get
    (by decide +kernel)
  have h : Reach step (Apart requests) (init 64 (2 ^ 62) false (requests.flatMap Message.bytes) 2) s :=
    reach_of_exec (Option.some_get _).symm
  exact ⟨requests, s, rfl, by decide +kernel, by decide +kernel,
    requests_in_order (by decide) (by decide) (by decide +kernel) (by decide) h⟩

/-- Two requests in one read: the second call finds nothing. -/
theorem second_lost : ¬∀ (relaxed : Bool) (requests : List (Message relaxed)) (buffSize maxSize : Nat) (s : Session),
    requests ≠ [] → (∀ r ∈ requests, r.head.length ≤ buffSize) → buffSize < 2 ^ 31 →
    (∀ r ∈ requests, r.body.length ≤ maxSize) → maxSize < 2 ^ 63 →
    Reach step (Delivered requests) (init buffSize maxSize relaxed (requests.flatMap Message.bytes) requests.length) s →
    InOrder requests s := by
  intro h
  let r : Message false :=
    ⟨ascii "GET / HTTP/1.1\r\n\r\n", [],
      ⟨⟨by decide +kernel, by decide +kernel, by decide +kernel, by decide +kernel⟩, by decide +kernel⟩⟩
  let requests := [r, r]
  let s := (exec step (Delivered requests) (init 64 (2 ^ 62) false (requests.flatMap Message.bytes) 2)
    [.recv (.read 36), .recv .run, .recv .run, .again, .recv (.read 0)]).get (by decide +kernel)
  have hr : Reach step (Delivered requests) (init 64 (2 ^ 62) false (requests.flatMap Message.bytes) 2) s :=
    reach_of_exec (Option.some_get _).symm
  have horder := h false requests 64 (2 ^ 62) s (by decide) (by decide +kernel) (by decide) (by decide +kernel) (by decide) hr
  have hnull : s.call.pc = .returned false := by decide +kernel
  exact absurd (horder.returned _ hnull).1 (by decide)

end Session
end Http
end MyHttp

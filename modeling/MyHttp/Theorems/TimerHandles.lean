import MyHttp.Theorems.TimerSet

/-! What the calls on a timer return to the holder of its handle. The set decides for all of them but `reset`, which
    returns before it looks when it would change nothing. -/

namespace MyHttp
namespace TimerObjects

open Lib Lib.Run Lib.Machine

variable {Cb : Type} {s t : TimerObjects Cb} {a now : Nat} {c : Call} {act : Act Cb}

/-- The call says whether the timer is pending, and leaves everything as it is when it is not. -/
structure Answers (s : TimerObjects Cb) (a : Nat) (c : Call) : Prop where
  pending : (s.call a c).map Prod.fst = some (decide (a ∈ s.timers))
  dead : a ∉ s.timers → s.call a c = some (false, s)

/-- A `reset` to the period that the timer has, and not from now on. -/
def KeepsPeriod (s : TimerObjects Cb) (a : Nat) (c : Call) : Prop := ∃ now, c = .reset now (s.object a).ms false

/-- The steps after which a timer is dead: its cancellation, and its expiry when it does not recur. -/
def Ends (s : TimerObjects Cb) (a : Nat) (act : Act Cb) : Prop :=
  act = .cancel a ∨
    (s.object a).recurring = false ∧ ∃ probe now, act = .listExpiredCb probe now ∧ a ∈ s.expired probe now

theorem Valid.mem_iff (h : s.Valid []) : a ∈ s.timers ↔ (s.object a).cb.isSome := by simpa using h.live a

theorem Valid.not_mem_iff (h : s.Valid []) : a ∉ s.timers ↔ (s.object a).cb = none := by
  rw [h.mem_iff, Bool.not_eq_true, Option.isSome_eq_false_iff, Option.isNone_iff_eq_none]

/-! ### One call -/

theorem reset_dead_fst {ms : Nat} {fromNow : Bool} (hcb : (s.object a).cb = none) :
    (s.reset a now ms fromNow).1 = decide (ms = (s.object a).ms ∧ fromNow = false) := by
  unfold reset
  by_cases hms : ms = (s.object a).ms ∧ fromNow = false
  · rw [if_pos hms, decide_eq_true hms]
  · rw [if_neg hms, hcb, decide_eq_false hms]
    rfl

theorem call_live (h : s.Valid []) (hcb : (s.object a).cb.isSome) (c : Call) :
    (s.call a c).map Prod.fst = some true := by
  cases c with
  | cancel =>
    obtain ⟨it, -, -, heq⟩ := cancel_live h hcb
    exact congrArg (Option.map Prod.fst) heq
  | refresh now =>
    obtain ⟨it, -, heq, -⟩ := refresh_live now h hcb
    exact congrArg (fun r => some r.1) heq
  | reset now ms fromNow =>
    by_cases hms : ms = (s.object a).ms ∧ fromNow = false
    · have heq : s.reset a now ms fromNow = (true, false, s) := if_pos hms
      exact congrArg (fun r => some r.1) heq
    · obtain ⟨it, -, heq, -⟩ := reset_live now h hcb hms
      exact congrArg (fun r => some r.1) heq

/-- A call on a dead timer changes nothing; `reset` may say yes. -/
theorem call_dead (hcb : (s.object a).cb = none) (c : Call) :
    KeepsPeriod s a c ∧ s.call a c = some (true, s) ∨ ¬KeepsPeriod s a c ∧ s.call a c = some (false, s) := by
  cases c with
  | cancel => exact .inr ⟨nofun, cancel_dead hcb⟩
  | refresh now => exact .inr ⟨nofun, congrArg some (refresh_dead hcb)⟩
  | reset now ms fromNow =>
    have hcall : s.call a (.reset now ms fromNow) = some (decide (ms = (s.object a).ms ∧ fromNow = false), s) :=
      congrArg some (Prod.ext (reset_dead_fst hcb) (reset_dead hcb))
    by_cases hms : ms = (s.object a).ms ∧ fromNow = false
    · obtain ⟨rfl, rfl⟩ := hms
      refine .inl ⟨⟨now, rfl⟩, ?_⟩
      rw [hcall, decide_eq_true ⟨rfl, rfl⟩]
    · refine .inr ⟨fun ⟨now', heq⟩ => hms ?_, ?_⟩
      · obtain ⟨-, rfl, rfl⟩ := Call.reset.inj heq
        exact ⟨rfl, rfl⟩
      · rw [hcall, decide_eq_false hms]

theorem answers_iff (h : s.Valid []) : Answers s a c ↔ ¬(a ∉ s.timers ∧ KeepsPeriod s a c) := by
  by_cases ha : a ∈ s.timers
  · refine ⟨fun _ hdead => hdead.1 ha, fun _ => ⟨?_, fun hdead => absurd ha hdead⟩⟩
    rw [call_live h (h.mem_iff.mp ha), decide_eq_true ha]
  · rcases call_dead (h.not_mem_iff.mp ha) c with ⟨hkeeps, heq⟩ | ⟨hkeeps, heq⟩
    · refine ⟨fun hanswers => ?_, fun hnot => absurd ⟨ha, hkeeps⟩ hnot⟩
      have hfalse := hanswers.dead ha
      rw [heq] at hfalse
      cases hfalse
    · refine ⟨fun _ hdead => hkeeps hdead.2, fun _ => ⟨?_, fun _ => heq⟩⟩
      rw [heq, decide_eq_false ha]
      rfl

/-! ### Runs -/

theorem Ends.dead (h : s.Valid []) (hok : s.Ok act) (hs : s.step act = some t) (hends : s.Ends a act) :
    (t.object a).cb = none := by
  rcases hends with rfl | ⟨hrec, probe, now, rfl, hout⟩
  · obtain ⟨r, hr, rfl⟩ := Option.map_eq_some_iff.mp hs
    rcases hcb : (s.object a).cb with _ | cb
    · rw [cancel_dead hcb] at hr
      obtain rfl := Option.some.inj hr
      exact hcb
    · obtain ⟨it, -, -, heq⟩ := cancel_live h (show (s.object a).cb.isSome by rw [hcb]; rfl)
      obtain rfl := Option.some.inj (heq.symm.trans hr)
      exact congrArg TimerObject.cb set_object_self
  · obtain rfl := Option.some.inj hs
    obtain ⟨-, -, hcb, -⟩ := listExpiredCb_expired now h hok
    exact (hcb a).trans (if_pos ⟨hout, hrec⟩)

/-- A dead timer stays dead while its memory is not used for another. -/
theorem step_dead (h : s.Valid []) (hok : s.Ok act) (hs : s.step act = some t) (hmakes : act.makes ≠ some a)
    (ha : (s.object a).cb = none) : (t.object a).cb = none := by
  cases act with
  | addTimer b now ms cb recurring =>
    obtain rfl := Option.some.inj hs
    have hab : a ≠ b := fun e => hmakes (congrArg some e.symm)
    exact (congrArg TimerObject.cb (set_object_of_ne hab)).trans ha
  | cancel b =>
    obtain ⟨r, hr, rfl⟩ := Option.map_eq_some_iff.mp hs
    by_cases hab : a = b
    · subst hab
      rw [cancel_dead ha] at hr
      obtain rfl := Option.some.inj hr
      exact ha
    · exact (cancel_cb hr hab).trans ha
  | refresh b now =>
    obtain rfl := Option.some.inj hs
    exact refresh_cb.trans ha
  | reset b now ms fromNow =>
    obtain rfl := Option.some.inj hs
    exact reset_cb.trans ha
  | listExpiredCb probe now =>
    obtain rfl := Option.some.inj hs
    obtain ⟨-, -, hcb, -⟩ := listExpiredCb_expired now h hok
    refine (hcb a).trans ?_
    split_ifs
    · rfl
    · exact ha

/-- In every state reached, a call on a timer says whether it is pending and changes nothing when it is not, unless it
    is a `reset` of a dead timer to the period it had; a timer that was cancelled or has expired for good is dead,
    and stays so while somebody holds its handle. -/
theorem call_answers_iff (h : Reach step Ok (TimerObjects.new now) s) (a : Nat) :
    (∀ c, Answers s a c ↔ ¬(a ∉ s.timers ∧ KeepsPeriod s a c)) ∧
    (∀ act t, s.Ok act → s.step act = some t → s.Ends a act → a ∉ t.timers) ∧
    ∀ t, a ∉ s.timers → Reach step (fun s act => s.Ok act ∧ act.makes ≠ some a) s t → a ∉ t.timers := by
  have hv := reach_valid h
  refine ⟨fun c => answers_iff hv, fun act t hok hs hends => ?_, fun t ha hrun => ?_⟩
  · exact (hv.step hok hs).not_mem_iff.mpr (hends.dead hv hok hs)
  · have hdead := hrun.invariant (P := fun u => u.Valid [] ∧ (u.object a).cb = none) ⟨hv, hv.not_mem_iff.mp ha⟩
      fun u act u' hu hok hs => ⟨hu.1.step hok.1 hs, step_dead hu.1 hok.1 hs hok.2 hu.2⟩
    exact hdead.1.not_mem_iff.mpr hdead.2

/-- One timer has expired and another is pending. -/
theorem call_answers_iff_two :
    let s := (exec step Ok (TimerObjects.new 0 : TimerObjects Nat) [.addTimer 16 0 10 (some 1) false,
      .addTimer 8 0 20 (some 2) true, .listExpiredCb 24 10]).get (by decide +kernel)
    Answers s 16 (.reset 11 10 true) ∧ Answers s 8 (.reset 11 20 false) := by
  intro s
  have hr : Reach step Ok (TimerObjects.new 0) s := reach_of_exec (Option.some_get _).symm
  refine ⟨((call_answers_iff hr 16).1 _).mpr fun hshort => ?_, ((call_answers_iff hr 8).1 _).mpr fun hshort => ?_⟩
  · obtain ⟨now, heq⟩ := hshort.2
    cases heq
  · exact hshort.1 (by decide +kernel)

/-- The timer has expired, and a `reset` to its old period says that it is pending. -/
theorem reset_says_pending : ¬∀ (s : TimerObjects Nat) (a : Nat) (c : Call),
    Reach step Ok (TimerObjects.new 0) s → Answers s a c := by
  intro h
  let s := (exec step Ok (TimerObjects.new 0 : TimerObjects Nat) [.addTimer 16 0 10 (some 1) false,
    .listExpiredCb 24 10]).get (by decide +kernel)
  have hr : Reach step Ok (TimerObjects.new 0) s := reach_of_exec (Option.some_get _).symm
  have hpending : some true = some (decide (16 ∈ s.timers)) := (h s 16 (.reset 11 10 false) hr).pending
  revert hpending
  decide +kernel

end TimerObjects
end MyHttp

import MyHttp.TimerArming
import MyHttp.Theorems.TimerExpiry

/-! No timer fires before its time, as long as the time at which it is armed and its period have a sum below `2 ^ 64`:
    a due time that wraps lies behind the clock, and the timer fires at once. -/

namespace MyHttp
namespace TimerArming

open Lib Lib.Run Lib.Machine TimerObjects

variable {Cb : Type} {s t : TimerArming Cb} {a b now probe : Nat}

/-- The due time was made from the last arming. -/
structure Punctual (clock : Nat) (armed : Nat × Nat) (o : TimerObject Cb) : Prop where
  next : o.next = wrap64 (armed.1 + armed.2)
  ms : o.ms = armed.2
  behind : armed.1 ≤ clock
  period : armed.2 < 2 ^ 64

structure Inv (s : TimerArming Cb) : Prop where
  valid : s.manager.Valid []
  punctual : ∀ a ∈ s.manager.timers, Punctual s.clock (s.armed a) (s.manager.object a)
  forward : s.manager.previouseTime ≤ s.clock

theorem Punctual.later {armed : Nat × Nat} {o : TimerObject Cb} {clock clock' : Nat} (h : Punctual clock armed o)
    (hle : clock ≤ clock') : Punctual clock' armed o :=
  ⟨h.next, h.ms, h.behind.trans hle, h.period⟩

theorem Inv.init : Inv (init now : TimerArming Cb) where
  valid := .new
  punctual _ h := by cases h
  forward := Nat.le_refl _

/-! ### One call -/

section Calls

variable {m : TimerObjects Cb} {act : Act Cb} {u : TimerObjects Cb}

theorem cancel_previouse {r : Bool × TimerObjects Cb} (h : m.cancel a = some r) :
    r.2.previouseTime = m.previouseTime := by
  unfold TimerObjects.cancel at h
  split at h
  · obtain ⟨it, -, rfl⟩ := Option.map_eq_some_iff.mp h
    rfl
  · obtain rfl := Option.some.inj h
    rfl

theorem refresh_previouse : (m.refresh a now).2.previouseTime = m.previouseTime := by
  unfold TimerObjects.refresh
  split
  · rfl
  · split <;> rfl

theorem reset_previouse {ms : Nat} {fromNow : Bool} :
    (m.reset a now ms fromNow).2.2.previouseTime = m.previouseTime := by
  unfold TimerObjects.reset
  split
  · rfl
  · split
    · rfl
    · split <;> rfl

/-- A cancellation leaves the other timers as they are. -/
theorem cancel_object {r : Bool × TimerObjects Cb} (h : m.cancel a = some r) (hb : b ≠ a) :
    r.2.object b = m.object b := by
  unfold TimerObjects.cancel at h
  split at h
  · obtain ⟨it, -, rfl⟩ := Option.map_eq_some_iff.mp h
    exact set_object_of_ne hb
  · obtain rfl := Option.some.inj h
    rfl

/-- What a call does to a timer that is in the set afterwards: it arms it, or leaves it alone. -/
structure Moved (m : TimerObjects Cb) (act : Act Cb) (b : Nat) (u : TimerObjects Cb) : Prop where
  armed : ∀ r ∈ arms m b act, (u.object b).next = wrap64 (r.1 + r.2) ∧ (u.object b).ms = r.2
  kept : arms m b act = none → b ∈ m.timers ∧ u.object b = m.object b

theorem Moved.of_kept (h : m.Valid []) (hu : u.Valid []) (hb : b ∈ u.timers) (hnone : arms m b act = none)
    (hobject : u.object b = m.object b) : Moved m act b u where
  armed r hr := by
    rw [hnone] at hr
    cases hr
  kept _ := by
    refine ⟨?_, hobject⟩
    have hlive := (hu.live b).mp hb
    rw [hobject] at hlive
    exact (h.live b).mpr hlive

theorem Moved.of_armed {r : Nat × Nat} (hsome : arms m b act = some r)
    (h : (u.object b).next = wrap64 (r.1 + r.2) ∧ (u.object b).ms = r.2) : Moved m act b u where
  armed r' hr' := by
    obtain rfl : r = r' := Option.some.inj (hsome.symm.trans hr')
    exact h
  kept hnone := by
    rw [hsome] at hnone
    cases hnone

theorem moved_addTimer {ms : Nat} {cb : Option Cb} {recurring : Bool} (h : m.Valid [])
    (hu : (m.addTimer a now ms cb recurring).2.Valid []) (hb : b ∈ (m.addTimer a now ms cb recurring).2.timers) :
    Moved m (.addTimer a now ms cb recurring) b (m.addTimer a now ms cb recurring).2 := by
  by_cases hab : a = b
  · subst hab
    have hobject : (m.addTimer a now ms cb recurring).2.object a = ⟨recurring, ms, wrap64 (now + ms), cb⟩ :=
      set_object_self
    refine .of_armed (r := (now, ms)) (if_pos rfl) ?_
    rw [hobject]
    exact ⟨rfl, rfl⟩
  · exact .of_kept h hu hb (if_neg hab) (set_object_of_ne (Ne.symm hab))

theorem moved_cancel {r : Bool × TimerObjects Cb} (h : m.Valid []) (hr : m.cancel a = some r) (hb : b ∈ r.2.timers) :
    Moved m (.cancel a) b r.2 := by
  have hu := h.cancel hr
  by_cases hab : b = a
  · subst hab
    rcases hcb : (m.object b).cb with _ | cb
    · rw [cancel_dead hcb] at hr
      obtain rfl := Option.some.inj hr
      exact .of_kept h hu hb rfl rfl
    · obtain ⟨it, -, -, heq⟩ := cancel_live h (show (m.object b).cb.isSome by rw [hcb]; rfl)
      obtain rfl := Option.some.inj (heq.symm.trans hr)
      have hlive := ((hu.live b).mp hb).1
      rw [set_object_self] at hlive
      cases hlive
  · exact .of_kept h hu hb rfl (cancel_object hr hab)

theorem moved_refresh (h : m.Valid []) (hb : b ∈ (m.refresh a now).2.timers) :
    Moved m (.refresh a now) b (m.refresh a now).2 := by
  rcases hcb : (m.object a).cb with _ | cb
  · have hnone : arms m b (.refresh a now) = none := if_neg fun hand => by
      rw [refresh_dead hcb] at hand
      cases hand.2
    exact .of_kept h h.refresh hb hnone (by rw [refresh_dead hcb])
  · obtain ⟨it, -, heq, hu⟩ := refresh_live now h (show (m.object a).cb.isSome by rw [hcb]; rfl)
    by_cases hab : a = b
    · subst hab
      refine .of_armed (r := (now, (m.object a).ms)) (if_pos ⟨rfl, by rw [heq]⟩) ?_
      rw [heq, insert_object, set_object_self]
      exact ⟨rfl, rfl⟩
    · refine .of_kept h hu hb (if_neg fun hand => hab hand.1) ?_
      rw [heq, insert_object, set_object_of_ne (Ne.symm hab)]

theorem moved_reset {ms : Nat} (h : m.Valid []) (hb : b ∈ (m.reset a now ms true).2.2.timers) :
    Moved m (.reset a now ms true) b (m.reset a now ms true).2.2 := by
  have hms : ¬(ms = (m.object a).ms ∧ true = false) := fun hand => by cases hand.2
  rcases hcb : (m.object a).cb with _ | cb
  · have hnone : arms m b (.reset a now ms true) = none := if_neg fun hand => by
      have hfalse : (m.reset a now ms true).1 = false := by
        unfold TimerObjects.reset
        rw [if_neg hms, hcb]
        rfl
      rw [hfalse] at hand
      cases hand.2
    exact .of_kept h h.reset hb hnone (by rw [reset_dead hcb])
  · obtain ⟨it, -, heq, hu⟩ := reset_live now h (show (m.object a).cb.isSome by rw [hcb]; rfl) hms
    by_cases hab : a = b
    · subst hab
      have hobject : (m.reset a now ms true).2.2.object a =
          { m.object a with ms := ms, next := wrap64 (now + ms) } := by
        rw [heq]
        exact set_object_self
      refine .of_armed (r := (now, ms)) (if_pos ⟨rfl, by rw [heq]⟩) ?_
      rw [hobject]
      exact ⟨rfl, rfl⟩
    · refine .of_kept h hu hb (if_neg fun hand => hab hand.1) ?_
      rw [heq]
      exact set_object_of_ne (Ne.symm hab)

theorem moved_listExpiredCb (h : m.Valid []) (hprobe : (m.object probe).cb = none)
    (hroll : (m.detectClockRollover now).1 = false) (hb : b ∈ (m.listExpiredCb probe now).2.timers) :
    Moved m (.listExpiredCb probe now) b (m.listExpiredCb probe now).2 := by
  have hordered : m.Ordered := h.sorted
  have hnot := h.not_mem hprobe
  obtain ⟨-, -, hkept, hobject⟩ := hordered.listExpiredCb hnot hroll
  obtain ⟨-, -, -, hu⟩ := listExpiredCb_expired now h hprobe
  obtain ⟨hin, hstays⟩ := (hkept b).mp hb
  have hexpired : b ∈ m.expired probe now ↔ ¬m.behindCut probe now b := by
    rw [hordered.expired_eq hnot hroll, mem_taken, and_iff_right hin]
  by_cases hcut : m.behindCut probe now b
  · refine .of_kept h hu hb (if_neg fun hand => hexpired.mp hand.1 hcut) ?_
    rw [hobject b hin, if_pos hcut]
  · have hrec := hstays.resolve_left hcut
    refine .of_armed (r := (now, (m.object b).ms)) (if_pos ⟨hexpired.mpr hcut, hrec⟩) ?_
    rw [hobject b hin, if_neg hcut, fired, if_pos hrec]
    exact ⟨rfl, rfl⟩

end Calls

/-! ### Runs -/

/-- The clock does not go back, so no roll-over is detected. -/
theorem Inv.no_rollover (h : s.Inv) (hle : s.clock ≤ now) : (s.manager.detectClockRollover now).1 = false :=
  decide_eq_false fun hback => Nat.not_lt.mpr (h.forward.trans hle) hback.1

/-- What a call does to the clock that the manager remembers and to its timers, and what it arms them with. -/
theorem Inv.call {act : Act Cb} {u : TimerObjects Cb} (h : s.Inv) (hok : s.Steady act) (hu : s.manager.step act = some u) :
    u.previouseTime ≤ clockAfter s.clock act ∧ (∀ b ∈ u.timers, Moved s.manager act b u) ∧
      ∀ b, ∀ r ∈ arms s.manager b act, r.1 = clockAfter s.clock act ∧
        (r.2 < 2 ^ 64 ∨ b ∈ s.manager.timers ∧ r.2 = (s.manager.object b).ms) := by
  obtain ⟨hallowed, hle, -, hperiod⟩ := hok
  have hvalid := h.valid.step hallowed hu
  cases act with
  | addTimer a now ms cb recurring =>
    obtain rfl := Option.some.inj hu
    refine ⟨h.forward.trans hle, fun b hb => moved_addTimer h.valid hvalid hb, fun b r hr => ?_⟩
    obtain ⟨-, heq⟩ := Option.ite_none_right_eq_some.mp hr
    obtain rfl := Option.some.inj heq
    exact ⟨rfl, .inl hperiod⟩
  | cancel a =>
    obtain ⟨r, hr, rfl⟩ := Option.map_eq_some_iff.mp hu
    exact ⟨(cancel_previouse hr).trans_le (h.forward.trans hle), fun b hb => moved_cancel h.valid hr hb,
      fun b r hr => by cases hr⟩
  | refresh a now =>
    obtain rfl := Option.some.inj hu
    refine ⟨refresh_previouse.trans_le (h.forward.trans hle), fun b hb => moved_refresh h.valid hb, fun b r hr => ?_⟩
    obtain ⟨⟨rfl, hyes⟩, heq⟩ := Option.ite_none_right_eq_some.mp hr
    obtain rfl := Option.some.inj heq
    refine ⟨rfl, .inr ⟨?_, rfl⟩⟩
    by_contra hdead
    have hcb : (s.manager.object a).cb = none := by simpa [h.valid.live] using hdead
    rw [refresh_dead hcb] at hyes
    cases hyes
  | reset a now ms fromNow =>
    obtain ⟨hms, rfl⟩ := hperiod
    obtain rfl := Option.some.inj hu
    refine ⟨reset_previouse.trans_le (h.forward.trans hle), fun b hb => moved_reset h.valid hb, fun b r hr => ?_⟩
    obtain ⟨-, heq⟩ := Option.ite_none_right_eq_some.mp hr
    obtain rfl := Option.some.inj heq
    exact ⟨rfl, .inl hms⟩
  | listExpiredCb probe now =>
    obtain rfl := Option.some.inj hu
    refine ⟨?_, fun b hb => moved_listExpiredCb h.valid hallowed (h.no_rollover hle) hb, fun b r hr => ?_⟩
    · rcases (listExpiredCb_fields s.manager probe now).2 with heq | heq
      · exact heq.trans_le (h.forward.trans hle)
      · exact heq.le
    · obtain ⟨⟨hin, -⟩, heq⟩ := Option.ite_none_right_eq_some.mp hr
      obtain rfl := Option.some.inj heq
      exact ⟨rfl, .inr ⟨List.mem_of_mem_take hin, rfl⟩⟩

theorem Inv.step {act : Act Cb} (h : s.Inv) (hok : s.Steady act) (hs : s.step act = some t) : t.Inv := by
  obtain ⟨u, hu, rfl⟩ := Option.map_eq_some_iff.mp hs
  obtain ⟨hforward, hmoved, harms⟩ := h.call hok hu
  refine ⟨h.valid.step hok.1 hu, fun b hb => ?_, hforward⟩
  show Punctual (clockAfter s.clock act) ((arms s.manager b act).getD (s.armed b)) (u.object b)
  rcases harm : arms s.manager b act with _ | r
  · obtain ⟨hin, hobject⟩ := (hmoved b hb).kept harm
    rw [hobject]
    exact (h.punctual b hin).later hok.2.1
  · obtain ⟨hnext, hms⟩ := (hmoved b hb).armed r harm
    obtain ⟨hnow, hbound⟩ := harms b r harm
    refine ⟨hnext, hms, hnow.le, ?_⟩
    rcases hbound with hlt | ⟨hin, heq⟩
    · exact hlt
    · have hpunctual := h.punctual b hin
      show r.2 < 2 ^ 64
      rw [heq, hpunctual.ms]
      exact hpunctual.period

theorem inv_of_reach {now₀ : Nat} (h : Reach step Steady (init now₀) s) : s.Inv :=
  h.invariant (P := Inv) .init fun _ _ _ hi hok hs => hi.step hok hs

/-- A timer is handed out by the calls from its due time on, by those at its due time if the probe lies behind it. -/
theorem Inv.expired_iff (h : s.Inv) (hok : s.Steady (.listExpiredCb probe now)) : a ∈ s.manager.expired probe now ↔
    a ∈ s.manager.timers ∧ ¬s.manager.behindCut probe now a := by
  obtain ⟨hprobe, hle, -, -⟩ := hok
  have hle : s.clock ≤ now := hle
  have hordered : s.manager.Ordered := h.valid.sorted
  rw [hordered.expired_eq (h.valid.not_mem hprobe) (h.no_rollover hle), mem_taken]

theorem Inv.expired_due (h : s.Inv) (hok : s.Steady (.listExpiredCb probe now))
    (ha : a ∈ s.manager.expired probe now) : wrap64 ((s.armed a).1 + (s.armed a).2) ≤ now := by
  obtain ⟨hin, hcut⟩ := (h.expired_iff hok).mp ha
  have hdue : (s.manager.object a).next ≤ now := Nat.not_lt.mp fun hlt => hcut (Or.inl hlt)
  rwa [(h.punctual a hin).next] at hdue

/-- A call at `now` hands out the callback of a timer no earlier than its period after it was last armed, exactly when
    the sum of the two fits. -/
theorem fires_on_time_iff {now₀ : Nat} (h : Reach step Steady (init now₀) s)
    (hok : s.Steady (.listExpiredCb probe now)) (ha : a ∈ s.manager.expired probe now) :
    (s.armed a).1 + (s.armed a).2 ≤ now ↔ (s.armed a).1 + (s.armed a).2 < 2 ^ 64 := by
  have hdue := (inv_of_reach h).expired_due hok ha
  have hnow : now < 2 ^ 64 := hok.2.2.1
  refine ⟨fun hfires => hfires.trans_lt hnow, fun hfits => ?_⟩
  rwa [wrap64_of_lt hfits] at hdue

/-- A timer that was refreshed, and another that recurs. -/
theorem fires_on_time_iff_two :
    let s := (exec step Steady (init 0 : TimerArming Nat) [.addTimer 16 0 10 (some 1) false,
      .addTimer 8 2 5 (some 2) true, .refresh 16 4, .listExpiredCb 24 7]).get (by decide +kernel)
    (s.armed 16).1 + (s.armed 16).2 ≤ 14 ∧ (s.armed 8).1 + (s.armed 8).2 ≤ 14 := by
  intro s
  have hr : Reach step Steady (init 0) s := reach_of_exec (Option.some_get _).symm
  have hok : s.Steady (.listExpiredCb 24 14) := by decide +kernel
  exact ⟨(fires_on_time_iff hr hok (a := 16) (by decide +kernel)).mpr (by decide +kernel),
    (fires_on_time_iff hr hok (a := 8) (by decide +kernel)).mpr (by decide +kernel)⟩

/-- A period of `2 ^ 64 - 2` makes a due time that has passed. -/
theorem fires_at_once : ¬∀ (s : TimerArming Nat) (probe now a : Nat), Reach step Steady (init 5) s →
    s.Steady (.listExpiredCb probe now) → a ∈ s.manager.expired probe now →
    (s.armed a).1 + (s.armed a).2 ≤ now := by
  intro h
  let s := (exec step Steady (init 5 : TimerArming Nat) [.addTimer 16 5 (2 ^ 64 - 2) (some 1) false]).get
    (by decide +kernel)
  have hr : Reach step Steady (init 5) s := reach_of_exec (Option.some_get _).symm
  have hearly := h s 24 5 16 hr (by decide +kernel) (by decide +kernel)
  revert hearly
  decide +kernel

end TimerArming
end MyHttp

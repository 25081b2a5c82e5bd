import MyHttp.Scheduler.Active
import MyHttp.Theorems.Scheduler.Steps
import MyHttp.Lib.Count

/-! The count of active threads is that of the workers between the fetch and the end of the switch back, as long as
    no worker finds the fiber it has taken over: the idle branch it then goes to does not lower the count. -/

namespace MyHttp
namespace Scheduler
namespace Active

open Lib.Run Lib.Count

variable {n : Nat} {s t : Active n} {w v : Fin n} {f : FiberId}

/-- The count is right, and a worker in front of the decrement is back from its fiber. -/
structure Counted (s : Active n) : Prop where
  count : s.activeThreadCount = total Bool.toNat s.busy
  back : ∀ w, s.returned w = true → ∃ slot, (s.state.workers w).pc = .back slot

theorem counted_init (n : Nat) : Counted (init n) where
  count := (total_zero fun _ => rfl).symm
  back w h := by cases h

theorem taken_eq_total : s.taken = total Bool.toNat s.busy := by
  unfold taken total
  rw [Finset.card_filter]
  refine Finset.sum_congr rfl fun w _ => ?_
  cases s.busy w <;> rfl

/-- Only worker `w` moves. -/
structure Local (w : Fin n) (s t : Active n) : Prop where
  workers : ∀ v ≠ w, t.state.workers v = s.state.workers v
  returned : ∀ v ≠ w, t.returned v = s.returned v

theorem Local.busy (h : Local w s t) : t.busy = Function.update s.busy w (t.busy w) := by
  funext v
  rcases eq_or_ne v w with rfl | hv
  · rw [Function.update_self]
  · rw [Function.update_of_ne hv]
    unfold Active.busy
    rw [h.workers v hv, h.returned v hv]

/-- A worker changes the count by the change of its own part in it. -/
theorem Counted.of_local (h : Counted s) (hl : Local w s t)
    (hcount : t.activeThreadCount + (s.busy w).toNat = s.activeThreadCount + (t.busy w).toNat)
    (hback : t.returned w = true → ∃ slot, (t.state.workers w).pc = .back slot) : Counted t := by
  refine ⟨?_, fun v hv => ?_⟩
  · have htotal := total_update Bool.toNat s.busy w (t.busy w)
    rw [← hl.busy, ← h.count] at htotal
    omega
  · rcases eq_or_ne v w with rfl | hne
    · exact hback hv
    · rw [hl.workers v hne]
      rw [hl.returned v hne] at hv
      exact h.back v hv

/-- A worker that is not back from a fiber is not in front of the decrement. -/
theorem Counted.not_returned (h : Counted s) (hpc : ∀ slot, (s.state.workers w).pc ≠ .back slot) :
    s.returned w = false := by
  rcases hr : s.returned w with _ | _
  · rfl
  · obtain ⟨slot, hslot⟩ := h.back w hr
    exact absurd hslot (hpc slot)

/-- A step of `w` that neither raises nor lowers the count. -/
theorem Counted.of_same (h : Counted s) {state : State n} {m : Move} (hm : State.Moves s.state w m state)
    (hpc : ∀ slot, (s.state.workers w).pc ≠ .back slot)
    (hsame : (state.workers w).pc.switching = (s.state.workers w).pc.switching) : Counted { s with state } := by
  have hr := h.not_returned hpc
  have hlocal : Local w s { s with state } := ⟨fun v hv => hm.workers_of_ne hv, fun _ _ => rfl⟩
  refine h.of_local hlocal ?_ fun hret => ?_
  · unfold busy
    rw [hsame]
  · rw [hr] at hret
    cases hret

/-- What is not a step of a worker moves no worker. -/
theorem Counted.of_outside (h : Counted s) {state : State n} (hw : state.workers = s.state.workers) :
    Counted { s with state } := by
  have hbusy : Active.busy { s with state } = s.busy := by
    funext w
    unfold busy
    rw [hw]
  refine ⟨?_, fun w hr => ?_⟩
  · rw [hbusy]
    exact h.count
  · rw [hw]
    exact h.back w hr

theorem Counted.fetch (h : Counted s) (hs : s.step (.scheduler (.worker w .fetch)) = some t) : Counted t := by
  obtain ⟨state, hstate, rfl⟩ := Option.map_eq_some_iff.mp hs
  have hm := State.act_inv hstate rfl
  have hlocal : ∀ c, Local w s { s with state, activeThreadCount := c } := fun c =>
    ⟨fun v hv => hm.workers_of_ne hv, fun _ _ => rfl⟩
  have hpc : (s.state.workers w).pc = .fetch := by cases hm <;> assumption
  have hr := h.not_returned (w := w) (by simp [hpc])
  refine h.of_local (hlocal _) ?_ fun hret => ?_
  · have hfetch : state = s.state.fetch w := by
      unfold State.step at hstate
      simp only [hpc] at hstate
      exact (Option.some.inj hstate).symm
    unfold busy takes
    dsimp only
    rw [hfetch, hpc, hr]
    unfold State.fetch
    cases hfind : s.state.queue.find? (s.state.takeable w) <;> simp [Pc.switching, State.goto, State.setWorker]
  · dsimp only at hret
    rw [hr] at hret
    cases hret

theorem Counted.leave (h : Counted s) (hs : s.step (.scheduler (.worker w .leave)) = some t) : Counted t := by
  obtain ⟨state, hstate, rfl⟩ := Option.map_eq_some_iff.mp hs
  have hm := State.act_inv hstate rfl
  have hlocal : Local w s { s with state, returned := Function.update s.returned w true } :=
    ⟨fun v hv => hm.workers_of_ne hv, fun v hv => Function.update_of_ne hv ..⟩
  cases hm with
  | @leave slot hpc =>
    refine h.of_local hlocal ?_ fun _ => ⟨slot, by simp⟩
    have hr := h.not_returned (w := w) (by simp [hpc])
    simp [busy, hpc, Pc.switching]

theorem Counted.look (h : Counted s) (hs : s.step (.scheduler (.worker w .look)) = some t) : Counted t := by
  simp only [step] at hs
  split_ifs at hs with hr
  obtain ⟨state, hstate, rfl⟩ := Option.map_eq_some_iff.mp hs
  have hm := State.act_inv hstate rfl
  have hlocal : Local w s { s with state } := ⟨fun v hv => hm.workers_of_ne hv, fun _ _ => rfl⟩
  refine h.of_local hlocal ?_ fun hret => absurd hret hr
  cases hm with
  | lookReady hpc | lookOver hpc | lookRecycle hpc | lookHold hpc => simp [busy, hpc, Pc.switching]

theorem Counted.decrement (h : Counted s) (hs : s.step (.decrement w) = some t) : Counted t := by
  simp only [step] at hs
  split_ifs at hs with hr
  cases hs
  obtain ⟨slot, hpc⟩ := h.back w hr
  have hbusy : s.busy w = true := by
    unfold busy
    rw [hr, Bool.or_true]
  have hpos : 0 < s.activeThreadCount := by
    have hle := le_total Bool.toNat s.busy w
    rw [hbusy] at hle
    rw [h.count]
    exact hle
  refine h.of_local (w := w) ⟨fun _ _ => rfl, fun v hv => Function.update_of_ne hv ..⟩ ?_ fun hret => ?_
  · rw [hbusy]
    unfold busy
    dsimp only
    rw [hpc, Function.update_self]
    exact Nat.sub_add_cancel hpos
  · dsimp only at hret
    rw [Function.update_self] at hret
    cases hret

/-- A fiber that is alive is entered. -/
theorem dispatch_alive {s : State n} {state : State n} (hpc : (s.workers w).pc = .picked (.fiber f))
    (halive : (s.fibers f).state.over = false) (hs : s.step (.worker w .dispatch) = some state) :
    state = s.goto w (.enter (.ft f) none) := by
  unfold State.step at hs
  simp only [hpc] at hs
  unfold State.act State.dispatch at hs
  dsimp only at hs
  rw [halive, if_neg Bool.false_ne_true] at hs
  exact (Option.some.inj hs).symm

theorem Counted.worker (h : Counted s) {m : Move} (hok : s.PickedUpAlive (.scheduler (.worker w m)))
    (hs : s.step (.scheduler (.worker w m)) = some t) : Counted t := by
  cases m with
  | fetch => exact h.fetch hs
  | leave => exact h.leave hs
  | look => exact h.look hs
  | dispatch =>
    obtain ⟨state, hstate, rfl⟩ := Option.map_eq_some_iff.mp hs
    have hm := State.act_inv hstate rfl
    have hmove := hm
    cases hm with
    | dispatchOver hpc | dispatchFiber hpc =>
      refine h.of_same hmove (by simp [hpc]) ?_
      simp only [PickedUpAlive, hpc] at hok
      rw [dispatch_alive hpc hok hstate, hpc]
      simp [Pc.switching]
    | dispatchReset hpc => exact h.of_same hmove (by simp [hpc]) (by simp [hpc, Pc.switching])
    | dispatchNew hpc => exact h.of_same hmove (by simp [hpc]) (by simp [hpc, Pc.switching])
  | enter | switch | register | exit | requeue | hold | recycle | idle =>
    obtain ⟨state, hstate, rfl⟩ := Option.map_eq_some_iff.mp hs
    have hm := State.act_inv hstate rfl
    have hmove := hm
    cases hm
    all_goals
      rename_i hpc
      refine h.of_same hmove (by simp [hpc]) ?_
      simp [hpc, Pc.switching, State.switch, State.push]

theorem Counted.step {a : Act n} (h : Counted s) (hok : s.PickedUpAlive a) (hs : s.step a = some t) : Counted t := by
  cases a with
  | decrement w => exact h.decrement hs
  | scheduler a =>
    cases a with
    | worker w m => exact h.worker hok hs
    | newFiber | schedule items | wake f =>
      simp only [Active.step] at hs
      obtain ⟨state, hstate, rfl⟩ := Option.map_eq_some_iff.mp hs
      exact h.of_outside (State.step_workers hstate fun _ _ => nofun)

/-- A worker that finds its fiber over stays counted. -/
theorem Counted.dispatch_over (h : Counted s) (hok : ¬s.PickedUpAlive (.scheduler (.worker w .dispatch)))
    (hs : s.step (.scheduler (.worker w .dispatch)) = some t) : t.taken + 1 = t.activeThreadCount := by
  obtain ⟨state, hstate, rfl⟩ := Option.map_eq_some_iff.mp hs
  have hm := State.act_inv hstate rfl
  unfold PickedUpAlive at hok
  dsimp only at hok
  split at hok
  case h_2 => exact absurd trivial hok
  case h_1 f hpc =>
    have hidle : state = s.state.goto w .idle := by
      unfold State.step at hstate
      simp only [hpc] at hstate
      unfold State.act State.dispatch at hstate
      dsimp only at hstate
      rw [Bool.not_eq_false] at hok
      rw [hok, if_pos rfl] at hstate
      exact (Option.some.inj hstate).symm
    have hr := h.not_returned (w := w) (by simp [hpc])
    have hlocal : Local w s { s with state } := ⟨fun v hv => hm.workers_of_ne hv, fun _ _ => rfl⟩
    have hbefore : s.busy w = true := by
      unfold busy
      rw [hpc]
      rfl
    have hafter : Active.busy { s with state } w = false := by
      unfold busy
      dsimp only
      rw [hidle, hr, State.goto_self]
      rfl
    have htotal := total_update Bool.toNat s.busy w (Active.busy { s with state } w)
    rw [← hlocal.busy, ← h.count, hbefore, hafter, ← taken_eq_total] at htotal
    exact htotal

/-- Among the steps only that one does. -/
theorem Counted.step_iff {a : Act n} (h : Counted s) (hs : s.step a = some t) :
    t.activeThreadCount = t.taken ↔ s.PickedUpAlive a := by
  refine ⟨fun heq => ?_, fun hok => (h.step hok hs).count.trans taken_eq_total.symm⟩
  by_contra hok
  cases a with
  | decrement w => exact hok trivial
  | scheduler a =>
    cases a with
    | worker w m =>
      cases m with
      | dispatch => exact Nat.succ_ne_self _ ((h.dispatch_over hok hs).trans heq)
      | _ => exact hok trivial
    | _ => exact hok trivial

/-- In every run in which no worker finds the fiber it has taken over, the count is that of the workers that have
    taken a task and not finished switching back; with all workers idle and nothing queued the scheduler can stop.
    A next step keeps the count right exactly when it finds no fiber over either. -/
theorem active_accounted (h : Reach step PickedUpAlive (init n) s) : s.activeThreadCount = s.taken ∧
    ((∀ w, (s.state.workers w).pc = .idle) → s.activeThreadCount = 0 ∧
      (s.state.queue = [] → s.stopping true true = true)) ∧
    ∀ a t, s.step a = some t → (t.activeThreadCount = t.taken ↔ s.PickedUpAlive a) := by
  have hc : Counted s := h.invariant (P := Counted) (counted_init n) fun _ _ _ hi hok hs => hi.step hok hs
  refine ⟨hc.count.trans taken_eq_total.symm, fun hidle => ?_, fun a t hs => hc.step_iff hs⟩
  have hzero : s.activeThreadCount = 0 := by
    refine hc.count.trans (total_zero fun w => ?_)
    unfold busy
    rw [hc.not_returned (w := w) (by simp [hidle w]), hidle w]
    rfl
  refine ⟨hzero, fun hqueue => ?_⟩
  unfold stopping
  rw [hzero, hqueue]
  rfl

/-- A fiber that was scheduled twice is run to its end, and its second entry is taken. -/
theorem taken_over : ¬∀ n, ∀ s : Active n, Reach step (fun _ _ => True) (init n) s →
    s.activeThreadCount = s.taken ∧ ((∀ w, (s.state.workers w).pc = .idle) → s.activeThreadCount = 0 ∧
      (s.state.queue = [] → s.stopping true true = true)) := by
  intro h
  let s := (exec step (fun _ _ => True) (init 1) [.scheduler .newFiber,
    .scheduler (.schedule [.fiber 0 none, .fiber 0 none]), .scheduler (.worker 0 .fetch),
    .scheduler (.worker 0 .dispatch), .scheduler (.worker 0 .enter), .scheduler (.worker 0 .switch),
    .scheduler (.worker 0 (.exit .returned)), .scheduler (.worker 0 .leave), .decrement 0,
    .scheduler (.worker 0 .look), .scheduler (.worker 0 .fetch), .scheduler (.worker 0 .dispatch)]).get (by decide)
  have hr : Reach step (fun _ _ => True) (init 1) s := reach_of_exec (Option.some_get _).symm
  exact absurd (h 1 s hr).1 (by decide)

/-- A fiber yields and goes on on the other worker, which is switching to it. -/
theorem active_accounted_two : ∃ s : Active 2, s.activeThreadCount = 1 ∧ s.activeThreadCount = s.taken := by
  let s := (exec step PickedUpAlive (init 2) [.scheduler .newFiber, .scheduler (.schedule [.fiber 0 none]),
    .scheduler (.worker 0 .fetch), .scheduler (.worker 0 .dispatch), .scheduler (.worker 0 .enter),
    .scheduler (.worker 0 .switch), .scheduler (.worker 0 (.exit .yieldToReady)), .scheduler (.worker 0 .leave),
    .decrement 0, .scheduler (.worker 0 .look), .scheduler (.worker 0 .requeue), .scheduler (.worker 1 .fetch),
    .scheduler (.worker 1 .dispatch), .scheduler (.worker 0 .fetch), .scheduler (.worker 0 .idle)]).get (by decide)
  exact ⟨s, by decide, (active_accounted (reach_of_exec (Option.some_get _).symm)).1⟩

end Active
end Scheduler
end MyHttp

import MyHttp.Scheduler.Affinity
import MyHttp.Theorems.Scheduler.Steps
import Mathlib.Data.List.InsertIdx

/-! A task stays on its thread as long as `run` and the wake-ups put back only tasks that have none: an entry that is
    put back names no thread, so any worker takes it. -/

namespace MyHttp
namespace Scheduler
namespace Affinity

open Lib.Run

variable {n : Nat} {s t : Affinity n} {state : State n} {w : Fin n}

/-- The thread of a task that the worker may execute. -/
def Fits (w : Fin n) (thread : Option Nat) : Prop := ∀ i, thread = some i → w.val = i

/-- Every entry names the thread of its task, and the workers have taken and executed nothing but tasks that fit. -/
structure Pinned (s : Affinity n) : Prop where
  queued : s.homes = s.state.queue.map Entry.thread
  task : ∀ w, Fits w (s.task w)
  slices : ∀ x ∈ s.slices, Fits x.1 x.2

theorem pinned_init (n : Nat) : Pinned (init n) where
  queued := rfl
  task _ _ h := by cases h
  slices x hx := by cases hx

/-- A step that leaves the queue as it is. -/
theorem Pinned.of_queue (h : Pinned s) (hq : state.queue = s.state.queue) : Pinned { s with state } where
  queued := h.queued.trans (by rw [hq])
  task := h.task
  slices := h.slices

/-- The entries put behind the queue name the threads of their tasks. -/
theorem Pinned.put (h : Pinned s) (entries : List Entry) {thread : Entry → Option Nat}
    (hq : state.queue = s.state.queue ++ entries) (hthread : ∀ e ∈ entries, thread e = e.thread) :
    Pinned (s.put state thread) where
  queued := by
    show s.homes ++ (state.queue.drop s.state.queue.length).map thread = state.queue.map Entry.thread
    rw [hq, List.drop_left, List.map_append, h.queued, List.map_congr_left hthread]
  task := h.task
  slices := h.slices

theorem Pinned.fetch (h : Pinned s) (hs : s.step (.worker w .fetch) = some t) : Pinned t := by
  obtain ⟨state, hstate, rfl⟩ := Option.map_eq_some_iff.mp hs
  have hm := State.act_inv hstate rfl
  have hpc : (s.state.workers w).pc = .fetch := by cases hm <;> assumption
  have hfetch : state = s.state.fetch w := by
    unfold State.step at hstate
    simp only [hpc] at hstate
    exact (Option.some.inj hstate).symm
  have hqueue : state.queue = s.state.queue.eraseP (s.state.takeable w) := by
    rw [hfetch]
    unfold State.fetch
    split
    case h_1 e he => rfl
    case h_2 hnone => exact (List.eraseP_of_forall_not fun e he => List.find?_eq_none.mp hnone e he).symm
  rw [List.eraseP_eq_eraseIdx] at hqueue
  dsimp only
  unfold Affinity.take
  cases hfind : s.state.queue.findIdx? (s.state.takeable w) with
  | none =>
    rw [hfind] at hqueue
    exact h.of_queue hqueue
  | some i =>
    rw [hfind] at hqueue
    obtain ⟨hlt, htake, -⟩ := List.findIdx?_eq_some_iff_getElem.mp hfind
    refine ⟨?_, fun v => ?_, h.slices⟩
    · show s.homes.eraseIdx i = state.queue.map Entry.thread
      rw [hqueue, h.queued, List.eraseIdx_map]
    · rcases eq_or_ne v w with rfl | hv
      · dsimp only
        rw [Function.update_self, h.queued, List.getElem?_map, List.getElem?_eq_getElem hlt]
        intro j hj
        have hthread : s.state.queue[i].thread = some j := hj
        simp only [State.takeable, hthread, Bool.and_eq_true, Bool.or_eq_true, decide_eq_true_eq] at htake
        rcases htake.1 with hnone | hself
        · cases hnone
        · exact (Option.some.inj hself).symm
      · dsimp only
        rw [Function.update_of_ne hv]
        exact h.task v

theorem Pinned.switch (h : Pinned s) (hs : s.step (.worker w .switch) = some t) : Pinned t := by
  obtain ⟨state, hstate, rfl⟩ := Option.map_eq_some_iff.mp hs
  have hm := State.act_inv hstate rfl
  cases hm with
  | @switch slot starts hpc =>
    dsimp only [slice]
    rw [hpc]
    refine ⟨h.queued, h.task, fun x hx => ?_⟩
    rcases List.mem_append.mp hx with hx | hx
    · exact h.slices x hx
    · obtain rfl := List.mem_singleton.mp hx
      exact h.task w

theorem Pinned.requeue (h : Pinned s) (hok : s.task w = none) (hs : s.step (.worker w .requeue) = some t) :
    Pinned t := by
  obtain ⟨state, hstate, rfl⟩ := Option.map_eq_some_iff.mp hs
  have hm := State.act_inv hstate rfl
  cases hm with
  | @requeue slot hpc =>
    refine h.put [⟨.fiber slot.fiber, none⟩] rfl fun e he => ?_
    obtain rfl := List.mem_singleton.mp he
    exact hok

theorem Pinned.worker (h : Pinned s) {m : Move} (hok : s.PutBackFree (.worker w m))
    (hs : s.step (.worker w m) = some t) : Pinned t := by
  cases m with
  | fetch => exact h.fetch hs
  | switch => exact h.switch hs
  | requeue => exact h.requeue hok hs
  | dispatch | enter | register | exit | leave | look | hold | recycle | idle =>
    obtain ⟨state, hstate, rfl⟩ := Option.map_eq_some_iff.mp hs
    have hm := State.act_inv hstate rfl
    refine h.of_queue ?_
    cases hm <;> rfl

theorem Pinned.step {a : Act n} (h : Pinned s) (hok : s.PutBackFree a) (hs : s.step a = some t) : Pinned t := by
  cases a with
  | worker w m => exact h.worker hok hs
  | newFiber =>
    cases hs
    exact h.of_queue rfl
  | schedule items =>
    obtain ⟨state, hstate, rfl⟩ := Option.map_eq_some_iff.mp hs
    obtain ⟨entries, hq⟩ := State.schedule_queue hstate
    exact h.put entries hq fun _ _ => rfl
  | wake f =>
    obtain ⟨state, hstate, rfl⟩ := Option.map_eq_some_iff.mp hs
    simp only [State.step] at hstate
    split_ifs at hstate
    cases hstate
    refine h.put [⟨.fiber f, none⟩] rfl fun e he => ?_
    obtain rfl := List.mem_singleton.mp he
    exact hok

/-- In every run in which nothing that was scheduled for a thread is put back, every slice of a task that was
    scheduled for a thread is executed by the worker of that thread. -/
theorem slices_on_thread (h : Reach step PutBackFree (init n) s) :
    ∀ w i, (w, some i) ∈ s.slices → w.val = i := by
  have hp : Pinned s := h.invariant (P := Pinned) (pinned_init n) fun _ _ _ hi hok hs => hi.step hok hs
  exact fun w i hx => hp.slices (w, some i) hx i rfl

/-- A callback for worker 0 yields with `YieldToReady`, and worker 1 takes the fiber it is in. -/
theorem slice_elsewhere : ¬∀ n, ∀ s : Affinity n, Reach step (fun _ _ => True) (init n) s →
    ∀ w i, (w, some i) ∈ s.slices → w.val = i := by
  intro h
  let s := (exec step (fun _ _ => True) (init 2) [.schedule [.callback (some 0)], .worker 0 .fetch,
    .worker 0 .dispatch, .worker 0 .enter, .worker 0 .switch, .worker 0 (.exit .yieldToReady), .worker 0 .leave,
    .worker 0 .look, .worker 0 .requeue, .worker 1 .fetch, .worker 1 .dispatch, .worker 1 .enter,
    .worker 1 .switch]).get (by decide)
  have hr : Reach step (fun _ _ => True) (init 2) s := reach_of_exec (Option.some_get _).symm
  have hx : ((1 : Fin 2), some 0) ∈ s.slices := by decide
  exact absurd (h 2 s hr 1 0 hx) (by decide)

/-- A task for worker 1 runs to its end there, while one for no thread is put back by worker 0 and taken by worker 1. -/
theorem slices_on_thread_two : ∃ s : Affinity 2, s.slices = [(0, none), (1, some 1), (1, none)] ∧
    ∀ w i, (w, some i) ∈ s.slices → w.val = i := by
  let s := (exec step PutBackFree (init 2) [.schedule [.callback none, .callback (some 1)], .worker 0 .fetch,
    .worker 0 .dispatch, .worker 0 .enter, .worker 0 .switch, .worker 0 (.exit .yieldToReady), .worker 0 .leave,
    .worker 0 .look, .worker 0 .requeue, .worker 1 .fetch, .worker 1 .dispatch, .worker 1 .enter, .worker 1 .switch,
    .worker 1 (.exit .returned), .worker 1 .leave, .worker 1 .look, .worker 1 .recycle, .worker 1 .fetch,
    .worker 1 .dispatch, .worker 1 .enter, .worker 1 .switch]).get (by decide)
  exact ⟨s, by decide, slices_on_thread (reach_of_exec (Option.some_get _).symm)⟩

end Affinity
end Scheduler
end MyHttp

import MyHttp.Theorems.IOManager.WorkerSteps

/-! What is left when all workers have left. `stopping` reads the timers, the pending events and the queue one after
    the other; after `stop` only a worker that has not read a thing yet can add to it, so what all workers have
    read as empty stays empty. Two orders break this: a `stop` between the reads of the last worker, and a
    worker that takes a task although its idle fiber is over. -/

namespace MyHttp
namespace IOManager

open Lib.Machine Lib.Run

variable {n : Nat}

/-! ### What a worker has read -/

def Pc.readsOn : Pc → Bool
  | .readPending _ | .readQueue _ => true
  | _ => false

def Pc.readsQueue : Pc → Bool
  | .readQueue _ => true
  | _ => false

/-- Where a worker can be whose idle fiber is over. -/
def Pc.closing : Pc → Bool
  | .leaveIdle | .scan | .noTask | .left => true
  | _ => false

namespace Worker

variable {k : Worker}

/-- The worker has found the timers empty, in the call of `stopping` it is in or in its last one. -/
def PastTimers (k : Worker) : Prop := k.term = true ∨ k.pc.readsOn = true

/-- The worker has found no pending event either. -/
def PastPending (k : Worker) : Prop := k.term = true ∨ k.pc.readsQueue = true

/-- The worker has found the queue empty too, and its idle fiber is over. -/
def PastQueue (k : Worker) : Prop := k.term = true

instance (k : Worker) : Decidable k.PastTimers := by
  unfold PastTimers
  infer_instance

instance (k : Worker) : Decidable k.PastPending := by
  unfold PastPending
  infer_instance

/-- A worker whose idle fiber is over is on its way out; `stop` was called before. -/
structure Placed (stopping : Bool) (k : Worker) : Prop where
  closing : k.term = true → k.pc.closing = true
  stopped : k.term = true → stopping = true
  left : k.pc = .left → k.term = true

theorem Placed.term_false {stopping : Bool} (h : Placed stopping k) (hpc : k.pc.closing = false) :
    k.term = false := by
  by_contra ht
  have := h.closing (by simpa using ht)
  rw [hpc] at this
  cases this

end Worker

namespace State

variable {s s' : State n} {w : Fin n} {m : Move}

/-! ### The invariant -/

/-- What all workers have read as empty is empty, once `stop` was called. -/
structure Closing (s : State n) : Prop where
  clock : 0 < s.now
  bounded : s.timers.Bounded
  placed : ∀ w, (s.workers w).Placed s.stopping
  timers : s.stopping = true → (∀ w, (s.workers w).PastTimers) → s.timers.timers = []
  pending : s.stopping = true → (∀ w, (s.workers w).PastPending) → s.pendingEventCount = 0
  queue : s.stopping = true → (∀ w, (s.workers w).PastQueue) → s.queue = []

/-- Only the workers add to an `IOManager` after `stop`. -/
def OnlyWorkers (s : State n) : Act n → Prop
  | .outside (.schedule _) => s.stopping = false
  | .outside (.addTimer _ _ _) => s.stopping = false
  | _ => True

/-- `stop` finds a worker that is still to read the timers, or none are set, and the same for the pending events;
    a worker whose idle fiber is over finds no task to take. -/
def Orderly (s : State n) : Act n → Prop
  | .outside .stop => s.stopping = true ∨
      ((∀ w, (s.workers w).PastTimers) → s.timers.timers = []) ∧
      ((∀ w, (s.workers w).PastPending) → s.pendingEventCount = 0)
  | .worker w .scan => (s.workers w).term = true → s.queue.find? (s.takeable w) = none
  | _ => True

instance (s : State n) (a : Act n) : Decidable (OnlyWorkers s a) := by
  induction a using Act.casesOn with
  | outside o => induction o using Outside.casesOn <;> unfold OnlyWorkers <;> infer_instance
  | worker w m => unfold OnlyWorkers; infer_instance

instance (s : State n) (a : Act n) : Decidable (Orderly s a) := by
  induction a using Act.casesOn with
  | outside o => induction o using Outside.casesOn <;> unfold Orderly <;> infer_instance
  | worker w m => induction m using Move.casesOn <;> unfold Orderly <;> infer_instance

theorem closing_init (n : Nat) {now : Nat} (hnow : 0 < now) : Closing (init n now) := by
  refine ⟨hnow, ?_, fun _ => ⟨?_, ?_, ?_⟩, ?_, ?_, ?_⟩ <;> simp [init, TimerManager.Bounded, TimerManager.new]

/-! ### One step -/

/-- A step of a worker that is at work afterwards: it has read nothing yet. -/
theorem Closing.of_awake (h : Closing s) (hf : Frame s w s') (hb : s'.timers.Bounded)
    (hterm : (s'.workers w).term = false) (hpc : (s'.workers w).pc.readsOn = false)
    (hleft : (s'.workers w).pc ≠ .left) : Closing s' := by
  have hq : (s'.workers w).pc.readsQueue = false := by
    cases hc : (s'.workers w).pc <;> first | rfl | (rw [hc] at hpc; cases hpc)
  refine ⟨hf.now_eq ▸ h.clock, hb, ?_, fun _ hall => ?_, fun _ hall => ?_, fun _ hall => ?_⟩
  · rw [hf.stopping_eq]
    exact hf.each h.placed ⟨by rw [hterm]; nofun, by rw [hterm]; nofun, fun hl => absurd hl hleft⟩
  · have := hall w
    rw [Worker.PastTimers, hterm, hpc] at this
    simp at this
  · have := hall w
    rw [Worker.PastPending, hterm, hq] at this
    simp at this
  · have := hall w
    rw [Worker.PastQueue, hterm] at this
    cases this

/-- A step that adds nothing. The worker has read no more than before, or what it has read is empty. -/
theorem Closing.of_same (h : Closing s) (hf : Frame s w s') (htimers : s'.timers.timers = s.timers.timers)
    (hpending : s'.pendingEventCount ≤ s.pendingEventCount) (hqueue : s'.queue = s.queue)
    (hplaced : (s'.workers w).Placed s.stopping)
    (hreads : s.timers.timers = [] ∨ ((s'.workers w).PastTimers → (s.workers w).PastTimers))
    (hreads' : s.pendingEventCount = 0 ∨ ((s'.workers w).PastPending → (s.workers w).PastPending))
    (hterm : s.queue = [] ∨ ((s'.workers w).PastQueue → (s.workers w).PastQueue)) : Closing s' := by
  refine ⟨hf.now_eq ▸ h.clock, ?_, ?_, fun hst hall => ?_, fun hst hall => ?_, fun hst hall => ?_⟩
  · rw [TimerManager.Bounded, htimers]
    exact h.bounded
  · rw [hf.stopping_eq]
    exact hf.each h.placed hplaced
  · rw [htimers]
    exact hreads.elim id fun hr => h.timers (hf.stopping_eq ▸ hst) (hf.each_back hall hr)
  · have := hreads'.elim id fun hr => h.pending (hf.stopping_eq ▸ hst) (hf.each_back hall hr)
    omega
  · rw [hqueue]
    exact hterm.elim id fun hr => h.queue (hf.stopping_eq ▸ hst) (hf.each_back hall hr)

/-- A step that leaves the worker where it is in the code. -/
theorem Closing.of_stay (h : Closing s) (hf : Frame s w s') (htimers : s'.timers = s.timers)
    (hpending : s'.pendingEventCount ≤ s.pendingEventCount) (hqueue : s'.queue = s.queue)
    (hterm : (s'.workers w).term = (s.workers w).term) (hpc : (s'.workers w).pc = (s.workers w).pc) :
    Closing s' := by
  refine h.of_same hf (by rw [htimers]) hpending hqueue ?_ ?_ ?_ ?_
  · obtain ⟨hc, hst, hl⟩ := h.placed w
    exact ⟨by rw [hterm, hpc]; exact hc, by rw [hterm]; exact hst, by rw [hterm, hpc]; exact hl⟩
  · rw [Worker.PastTimers, Worker.PastTimers, hpc, hterm]
    exact Or.inr id
  · rw [Worker.PastPending, Worker.PastPending, hpc, hterm]
    exact Or.inr id
  · rw [Worker.PastQueue, Worker.PastQueue, hterm]
    exact Or.inr id

/-- The worker's step keeps the invariant, unless a worker whose idle fiber is over finds a task. -/
theorem Closing.moves (h : Closing s) (hm : Moves s w m s') (hok : Orderly s (.worker w m)) : Closing s' := by
  have hf := hm.frame
  have hb := hm.bounded h.bounded
  have hp := h.placed w
  cases hm with
  | tickleCheck => exact h.of_stay hf rfl le_rfl rfl (by simp) (by simp)
  | tickleWrite => exact h.of_stay hf rfl le_rfl rfl (by simp) (by simp)
  | pendingDown => exact h.of_stay hf rfl (Nat.sub_le _ _) rfl (by simp) (by simp)
  | pick hpc hfind =>
    have hterm : (s.workers w).term = false := by
      by_contra ht
      rw [hok (by simpa using ht)] at hfind
      cases hfind
    exact h.of_awake hf hb (by simpa) (by simp [Pc.readsOn]) (by simp)
  | pickNone hpc =>
    refine h.of_same hf rfl le_rfl rfl ⟨by simp [Pc.closing], by simpa using hp.stopped, by simp⟩ ?_ ?_ ?_ <;>
      simp [Worker.PastTimers, Worker.PastPending, Worker.PastQueue, Pc.readsOn, Pc.readsQueue, hpc]
  | idleLeft hpc hterm =>
    refine h.of_same hf rfl le_rfl rfl ⟨by simp [Pc.closing], by simpa using hp.stopped, by simp [hterm]⟩
      ?_ ?_ ?_ <;> simp [Worker.PastTimers, Worker.PastPending, Worker.PastQueue, hterm]
  | idleEnter _ hterm => refine h.of_awake hf hb ?_ ?_ ?_ <;> simp [hterm, Pc.readsOn]
  | leaveIdle hpc =>
    refine h.of_same hf rfl le_rfl rfl ⟨by simp [Pc.closing], by simpa using hp.stopped, by simp⟩ ?_ ?_ ?_ <;>
      simp [Worker.PastTimers, Worker.PastPending, Worker.PastQueue, Pc.readsOn, Pc.readsQueue, hpc]
  | ask hpc =>
    -- The timers are read here: the worker goes on only when there are none.
    have hterm := hp.term_false (by rw [hpc]; rfl)
    by_cases hmax : (s.timers.getNextTimer s.now).1 = maxUint64
    · have hnone := TimerManager.getNextTimer_max h.bounded h.clock hmax
      refine h.of_same hf rfl le_rfl rfl ⟨?_, ?_, ?_⟩ (Or.inl hnone) (Or.inr ?_) (Or.inr ?_) <;>
        simp [State.ask, hmax, hterm, Worker.PastPending, Worker.PastQueue, Pc.readsQueue]
    · refine h.of_awake hf hb ?_ ?_ ?_ <;> simp [State.ask, hmax, hterm, Pc.readsOn]
  | readPending hpc =>
    have hterm := hp.term_false (by rw [hpc]; rfl)
    by_cases hzero : s.pendingEventCount = 0
    · refine h.of_same hf rfl le_rfl rfl ⟨?_, ?_, ?_⟩ (Or.inr ?_) (Or.inl hzero) (Or.inr ?_) <;>
        simp [State.readPending, hzero, hterm, hpc, Worker.PastTimers, Worker.PastQueue, Pc.readsOn]
    · refine h.of_awake hf hb ?_ ?_ ?_ <;> simp [State.readPending, hzero, hterm, Pc.readsOn]
  | readQueueTerm hpc _ hst hqueue =>
    refine h.of_same hf rfl le_rfl rfl ⟨?_, ?_, ?_⟩ (Or.inr ?_) (Or.inr ?_) (Or.inl hqueue) <;>
      simp [hst, hpc, Pc.closing, Worker.PastTimers, Worker.PastPending, Pc.readsOn, Pc.readsQueue]
  | _ =>
    have hterm := hp.term_false (by simp [*, Pc.closing])
    refine h.of_awake hf hb ?_ ?_ ?_ <;> simp [*, Pc.readsOn, enterWait, addTimerBy]

/-- What a thread outside does keeps the invariant, when it adds nothing after `stop` and `stop` is timely. -/
theorem Closing.outside {o : Outside} (h : Closing s) (hn : 0 < n) (hs : s.outside o = some s')
    (honly : OnlyWorkers s (.outside o)) (hok : Orderly s (.outside o)) : Closing s' := by
  cases o with
  | schedule ts =>
    have hst : s.stopping = false := honly
    have hrest : s'.timers = s.timers ∧ s'.workers = s.workers ∧ s'.now = s.now ∧ s'.stopping = false := by
      simp only [State.outside] at hs
      split_ifs at hs <;> cases hs <;> simp [owe, hst]
    obtain ⟨ht, hw, hnow, hst'⟩ := hrest
    refine ⟨hnow ▸ h.clock, ht ▸ h.bounded, ?_, by simp [hst'], by simp [hst'], by simp [hst']⟩
    rw [hw, hst', ← hst]
    exact h.placed
  | addTimer addr ms recurring =>
    have hst : s.stopping = false := honly
    cases hs
    exact ⟨h.clock, h.bounded.addTimer, h.placed, by simp [owe, hst], by simp [owe, hst], by simp [owe, hst]⟩
  | tickleCheck c =>
    simp only [State.outside] at hs
    split_ifs at hs <;> cases hs <;> exact ⟨h.clock, h.bounded, h.placed, h.timers, h.pending, h.queue⟩
  | tickleWrite =>
    simp only [State.outside] at hs
    split_ifs at hs
    cases hs
    exact ⟨h.clock, h.bounded, h.placed, h.timers, h.pending, h.queue⟩
  | stop =>
    cases hs
    rcases hok with hst | ⟨htimers, hpending⟩
    · exact ⟨h.clock, h.bounded, hst ▸ h.placed, fun _ => h.timers hst, fun _ => h.pending hst,
        fun _ => h.queue hst⟩
    · refine ⟨h.clock, h.bounded, fun w => ?_, fun _ => htimers, fun _ => hpending, fun _ hall => ?_⟩
      · obtain ⟨hc, -, hl⟩ := h.placed w
        exact ⟨hc, fun _ => rfl, hl⟩
      · -- Before the first `stop` no idle fiber is over.
        exact h.queue ((h.placed ⟨0, hn⟩).stopped (hall ⟨0, hn⟩)) hall
  | pollStopping =>
    simp only [State.outside] at hs
    split_ifs at hs
    cases hs
    exact ⟨h.clock, h.bounded, h.placed, h.timers, h.pending, h.queue⟩
  | tick ms =>
    cases hs
    exact ⟨Nat.add_pos_left h.clock ms, h.bounded, h.placed, h.timers, h.pending, h.queue⟩

/-- One worker that finds nothing to do until it leaves. -/
def leaveRun : List (Act 1) :=
  [.worker 0 .scan, .worker 0 .idle, .worker 0 .ask, .worker 0 .readPending, .worker 0 .readQueue,
    .worker 0 .leaveIdle, .worker 0 .scan, .worker 0 .idle]

end State
end IOManager
end MyHttp

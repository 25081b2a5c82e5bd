import MyHttp.Theorems.IOManager.WorkerSteps

/-! Wake-ups. A thread outside leaves its wake-up out in three places: `schedule` on a queue that is not empty,
    `addTimer` while `m_tickled` is set, and `tickle()`, which writes only when no thread is idle. No wake-up is
    lost in the runs where, at each of these places, some worker is still to look, a byte is in the pipe or
    another wake-up is to come, and where no wait reaches past the deadline it was computed for. -/

namespace MyHttp
namespace IOManager

open Lib.Machine Lib.Run

variable {n : Nat}

/-- In `epoll_wait`, before the end of its time. -/
def Worker.Asleep (now : Nat) (k : Worker) : Prop :=
  match k.pc with
  | .blocked _ ends => ∀ e ∈ ends, now < e
  | _ => False

/-- The wait the worker is in, or goes into, ends by the due time of `t`. -/
def Worker.Covers (now : Nat) (t : Timer) (k : Worker) : Prop :=
  match k.pc with
  | .wait timeout asked => asked + timeout ≤ max t.next asked
  | .blocked _ ends => ∃ e ∈ ends, e ≤ max t.next now
  | _ => False

theorem Worker.Covers.mono {k : Worker} {now now' : Nat} {t t' : Timer} (h : k.Covers now t) (hnow : now ≤ now')
    (ht : t.next ≤ t'.next) : k.Covers now' t' := by
  unfold Worker.Covers at h ⊢
  split at h
  · omega
  · obtain ⟨e, he, hle⟩ := h
    exact ⟨e, he, by omega⟩
  · exact h.elim

/-- When the worker last asked for the next timer, while it carries the answer to `epoll_wait`. -/
def Pc.asked : Pc → Option Nat
  | .readPending asked | .readQueue asked | .wait _ asked => some asked
  | _ => none

def Worker.AskedBy (now : Nat) (k : Worker) : Prop := k.term = false ∧ ∀ a ∈ k.pc.asked, a ≤ now

namespace State

variable {s s' : State n} {w : Fin n} {m : Move}

/-- A task that an idle worker could run. -/
def Runnable (s : State n) (t : Task) : Prop := t.thread = none ∧ ∀ f ∈ t.fiber, s.fibers f ≠ .exec

/-- All workers sleep, no wake-up is in the pipe or to come, and there is a task to run, or a timer that is due
    before the end of every wait. -/
def Lost (s : State n) : Prop :=
  (∀ w, (s.workers w).Asleep s.now) ∧ s.pipe = 0 ∧ s.writing = 0 ∧ (∀ c, s.owed c = 0) ∧
    ((∃ t ∈ s.queue, s.Runnable t) ∨
      ∃ t ∈ s.timers.timers, ∀ w timeout ends, (s.workers w).pc = .blocked timeout ends → ∀ e ∈ ends, t.next < e)

/-- Something that was put into the queue is going to be seen, with more than `k` callers to come. -/
def TaskCare (s : State n) (k : Nat) : Prop :=
  (∃ w, (s.workers w).pc.scans = true) ∨ 0 < s.pipe ∨ 0 < s.writing ∨ k < s.owed .task

def TimerCare (s : State n) (k : Nat) : Prop :=
  (∃ w, (s.workers w).pc.asks = true) ∨ 0 < s.pipe ∨ 0 < s.writing ∨ k < s.owed .timer

def Covered (s : State n) (t : Timer) : Prop := ∃ w, (s.workers w).Covers s.now t

/-- The threads outside call `schedule` and `addTimer`, not `stop`. -/
def Callers (a : Act n) : Prop := a ≠ .outside .stop

instance (a : Act n) : Decidable (Callers a) := inferInstanceAs (Decidable (a ≠ _))

/-- Where a wake-up is left out it is not needed. -/
def Heeded (s : State n) : Act n → Prop
  | .outside (.schedule ts) => s.queue = [] ∨ s.TaskCare 0 ∨ ∀ t ∈ ts, t.thread ≠ none
  | .outside (.addTimer addr ms recurring) =>
    s.timers.tickled = false ∨ s.TimerCare 0 ∨ s.Covered (.new addr s.now ms recurring) ∨
      ((Timer.new addr s.now ms recurring).insertInto s.timers.timers).head? ≠
        some (.new addr s.now ms recurring)
  | .outside (.tickleCheck .task) => s.idleThreadCount = 0 ∨ s.TaskCare 1 ∨ ∀ t ∈ s.queue, ¬s.Runnable t
  | .outside (.tickleCheck .timer) => s.idleThreadCount = 0 ∨ s.TimerCare 1 ∨ ∀ t ∈ s.timers.timers, s.Covered t
  | .worker w (.begin _) =>
    -- An entry whose fiber is over sends the worker to its idle fiber without another look at the queue.
    match (s.workers w).pc with
    | .picked ⟨some f, _⟩ => (s.fibers f).over = false ∨ (∀ t ∈ s.queue, ¬s.Runnable t) ∨
        (∃ v ≠ w, (s.workers v).pc.scans = true) ∨ 0 < s.pipe ∨ 0 < s.writing ∨ 0 < s.owed .task
    | _ => True
  | .worker w .wait =>
    match (s.workers w).pc with
    | .wait timeout asked => s.TimerCare 0 ∨
        (∀ t ∈ s.timers.timers, ∃ v ≠ w, (s.workers v).Covers s.now t) ∨
        0 ≤ int32 (clampTimeout timeout) ∧ (timeout = 0 ∨ s.now + clampTimeout timeout ≤ asked + timeout)
    | _ => True
  | .worker w .interrupt =>
    match (s.workers w).pc with
    | .blocked timeout _ => s.TimerCare 0 ∨ ∀ t ∈ s.timers.timers,
        (∃ v ≠ w, (s.workers v).Covers s.now t) ∨
        ∃ d ∈ waitFor (clampTimeout timeout), s.now + d ≤ max t.next s.now
    | _ => True
  | _ => True

/-! ### The invariant -/

/-- What is to be done is going to be seen. -/
structure Watched (s : State n) : Prop where
  autoStop : s.autoStop = false
  clock : 0 < s.now
  bounded : s.timers.Bounded
  asked : ∀ w, (s.workers w).AskedBy s.now
  tasks : (∃ t ∈ s.queue, s.Runnable t) → s.TaskCare 0
  timers : ∀ t ∈ s.timers.timers, s.TimerCare 0 ∨ s.Covered t

theorem watched_init (n : Nat) {now : Nat} (hnow : 0 < now) : Watched (init n now) := by
  refine ⟨rfl, hnow, ?_, fun _ => ⟨rfl, ?_⟩, ?_, ?_⟩ <;>
    simp [init, TimerManager.Bounded, TimerManager.new, Pc.asked]

/-- A watched state is not lost: where all sleep, only the pipe and the callers are left to see a task, and a
    covered timer ends a wait. -/
theorem Watched.not_lost (h : Watched s) : ¬s.Lost := by
  rintro ⟨hasleep, hpipe, hwriting, howed, hwork⟩
  have hblocked : ∀ w, ∃ timeout ends, (s.workers w).pc = .blocked timeout ends ∧ ∀ e ∈ ends, s.now < e := by
    intro w
    have hw := hasleep w
    unfold Worker.Asleep at hw
    split at hw
    case h_1 timeout ends hpc => exact ⟨timeout, ends, hpc, hw⟩
    case h_2 => exact hw.elim
  rcases hwork with htask | ⟨t, ht, hlate⟩
  · rcases h.tasks htask with ⟨w, hw⟩ | hp | hp | hp
    · obtain ⟨timeout, ends, hpc, -⟩ := hblocked w
      rw [hpc] at hw
      cases hw
    · omega
    · omega
    · exact absurd hp (by rw [howed]; omega)
  · rcases h.timers t ht with (⟨w, hw⟩ | hp | hp | hp) | ⟨w, hw⟩
    · obtain ⟨timeout, ends, hpc, -⟩ := hblocked w
      rw [hpc] at hw
      cases hw
    · omega
    · omega
    · exact absurd hp (by rw [howed]; omega)
    · obtain ⟨timeout, ends, hpc, hlong⟩ := hblocked w
      rw [Worker.Covers, hpc] at hw
      obtain ⟨e, he, hle⟩ := hw
      have := hlong e he
      have := hlate w timeout ends hpc e he
      omega

/-! ### What a worker's step keeps -/

theorem taskCare_of_scans {k : Nat} (h : (s.workers w).pc.scans = true) : s.TaskCare k := Or.inl ⟨w, h⟩

theorem timerCare_of_asks {k : Nat} (w : Fin n) (h : (s.workers w).pc.asks = true) : s.TimerCare k := Or.inl ⟨w, h⟩

/-- Care of either kind, by the places where a worker looks and the callers to come. -/
theorem care_moves {looks : Pc → Bool} {cause : Cause} {k : Nat} (hf : Frame s w s') (hpipe : s.pipe ≤ s'.pipe)
    (hw : looks (s.workers w).pc = true → looks (s'.workers w).pc = true)
    (h : (∃ v, looks (s.workers v).pc = true) ∨ 0 < s.pipe ∨ 0 < s.writing ∨ k < s.owed cause) :
    (∃ v, looks (s'.workers v).pc = true) ∨ 0 < s'.pipe ∨ 0 < s'.writing ∨ k < s'.owed cause := by
  rcases h with ⟨v, hv⟩ | hp | hp | hp
  · refine Or.inl ⟨v, ?_⟩
    rcases eq_or_ne v w with rfl | hne
    · exact hw hv
    · rwa [hf.others v hne]
  · exact Or.inr (Or.inl (by omega))
  · exact Or.inr (Or.inr (Or.inl (by rwa [hf.writing_eq])))
  · exact Or.inr (Or.inr (Or.inr (by rwa [hf.owed_eq])))

theorem TaskCare.moves {k : Nat} (h : s.TaskCare k) (hf : Frame s w s') (hpipe : s.pipe ≤ s'.pipe)
    (hw : (s.workers w).pc.scans = true → (s'.workers w).pc.scans = true) : s'.TaskCare k :=
  care_moves hf hpipe hw h

theorem TimerCare.moves {k : Nat} (h : s.TimerCare k) (hf : Frame s w s') (hpipe : s.pipe ≤ s'.pipe)
    (hw : (s.workers w).pc.asks = true → (s'.workers w).pc.asks = true) : s'.TimerCare k :=
  care_moves hf hpipe hw h

theorem Covered.moves {t : Timer} (h : s.Covered t) (hf : Frame s w s')
    (hw : (s.workers w).Covers s.now t → (s'.workers w).Covers s.now t) : s'.Covered t := by
  obtain ⟨v, hv⟩ := h
  refine ⟨v, ?_⟩
  rw [hf.now_eq]
  rcases eq_or_ne v w with rfl | hne
  · exact hw hv
  · rwa [hf.others v hne]

/-- A step of a worker that is going to scan afterwards. -/
theorem Watched.of_scans (h : Watched s) (hf : Frame s w s') (hb : s'.timers.Bounded)
    (hterm : (s'.workers w).term = false) (hpc : (s'.workers w).pc.scans = true) : Watched s' := by
  have hasked : (s'.workers w).pc.asked = none := by
    cases hc : (s'.workers w).pc <;> first | rfl | (rw [hc] at hpc; cases hpc)
  refine ⟨hf.autoStop_eq.trans h.autoStop, hf.now_eq ▸ h.clock, hb, ?_, fun _ => taskCare_of_scans hpc,
    fun _ _ => Or.inl (timerCare_of_asks w (Pc.asks_of_scans hpc))⟩
  rw [hf.now_eq]
  exact hf.each h.asked ⟨hterm, by rw [hasked]; nofun⟩

/-- A step that leaves queue, fibers and timers as they are, and no worker less that is going to look. -/
theorem Watched.of_quiet (h : Watched s) (hf : Frame s w s') (hqueue : s'.queue = s.queue)
    (hfibers : s'.fibers = s.fibers) (htimers : s'.timers.timers = s.timers.timers) (hpipe : s.pipe ≤ s'.pipe)
    (hasked : (s'.workers w).AskedBy s.now)
    (hscans : (∀ t ∈ s.queue, ¬s.Runnable t) ∨ s'.TaskCare 0 ∨
      ((s.workers w).pc.scans = true → (s'.workers w).pc.scans = true))
    (hlook : (∀ t ∈ s.timers.timers, s'.TimerCare 0 ∨ s'.Covered t) ∨
      ((s.workers w).pc.asks = true → (s'.workers w).pc.asks = true) ∧
        ∀ t, (s.workers w).Covers s.now t → (s'.workers w).Covers s.now t) : Watched s' := by
  refine ⟨hf.autoStop_eq.trans h.autoStop, hf.now_eq ▸ h.clock, ?_, ?_, fun htask => ?_, fun t ht => ?_⟩
  · rw [TimerManager.Bounded, htimers]
    exact h.bounded
  · rw [hf.now_eq]
    exact hf.each h.asked hasked
  · have htask' : ∃ t ∈ s.queue, s.Runnable t := by
      obtain ⟨t, ht, hr⟩ := htask
      exact ⟨t, hqueue ▸ ht, hr.1, hfibers ▸ hr.2⟩
    rcases hscans with hnone | hcare | hw
    · obtain ⟨t, ht, hr⟩ := htask'
      exact absurd hr (hnone t ht)
    · exact hcare
    · exact (h.tasks htask').moves hf hpipe hw
  · rw [htimers] at ht
    rcases hlook with hall | ⟨hw, hc⟩
    · exact hall t ht
    · exact (h.timers t ht).imp (·.moves hf hpipe hw) (·.moves hf (hc t))

/-! ### The steps of a worker -/

theorem find?_none_runnable (h : s.queue.find? (s.takeable w) = none) : ∀ t ∈ s.queue, ¬s.Runnable t := by
  intro t ht hr
  have hnot := List.find?_eq_none.mp h t ht
  refine hnot ?_
  rw [takeable, hr.1, decide_eq_true rfl, Bool.true_or, Bool.true_and]
  cases hfib : t.fiber with
  | none => rfl
  | some f => simpa using hr.2 f hfib

theorem waitFor_le {timeout d : Nat} (h : waitFor timeout = some d) : d ≤ timeout := by
  have hle := int32_le (Int.natCast_nonneg timeout)
  unfold waitFor at h
  split_ifs at h
  have hd := Option.some.inj h
  omega

theorem clampTimeout_le (timeout : Nat) : clampTimeout timeout ≤ timeout := by
  have hle := int32_le (Int.natCast_nonneg timeout)
  unfold clampTimeout
  split_ifs with hmax hcap
  · omega
  · exact Nat.le_refl _
  · rw [not_not.mp hmax]
    decide

/-- A step that leaves the worker where it is in the code. -/
theorem Watched.of_stay (h : Watched s) (hf : Frame s w s') (hqueue : s'.queue = s.queue)
    (hfibers : s'.fibers = s.fibers) (htimers : s'.timers.timers = s.timers.timers) (hpipe : s.pipe ≤ s'.pipe)
    (hpc : (s'.workers w).pc = (s.workers w).pc) (hterm : (s'.workers w).term = (s.workers w).term) :
    Watched s' := by
  refine h.of_quiet hf hqueue hfibers htimers hpipe ?_ (Or.inr (Or.inr ?_)) (Or.inr ⟨?_, fun t => ?_⟩)
  · rw [Worker.AskedBy, hpc, hterm]
    exact h.asked w
  · rw [hpc]
    exact id
  · rw [hpc]
    exact id
  · rw [Worker.Covers, Worker.Covers, hpc]
    exact id

/-- The answer of `getNextTimer` is carried to `epoll_wait`. -/
theorem Watched.ask (h : Watched s) (hf : Frame s w (s.ask w)) (hpc : (s.workers w).pc = .ask) :
    Watched (s.ask w) := by
  have hterm := (h.asked w).1
  by_cases hmax : (s.timers.getNextTimer s.now).1 = maxUint64
  · have hnone := TimerManager.getNextTimer_max h.bounded h.clock hmax
    refine h.of_quiet hf rfl rfl rfl le_rfl ?_ (Or.inr (Or.inr ?_)) (Or.inl ?_)
    · simp [State.ask, hmax, hterm, Worker.AskedBy, Pc.asked]
    · simp [hpc, Pc.scans]
    · simp [hnone]
  · refine h.of_quiet hf rfl rfl rfl le_rfl ?_ (Or.inr (Or.inr ?_)) (Or.inl fun t ht => Or.inr ⟨w, ?_⟩)
    · simp [State.ask, hmax, hterm, Worker.AskedBy, Pc.asked]
    · simp [hpc, Pc.scans]
    · have hle : s.now + (s.timers.getNextTimer s.now).1 ≤ max t.next s.now := TimerManager.getNextTimer_le ht
      simpa [State.ask, hmax, Worker.Covers] using hle

/-- A wait that ends by the deadline it was computed for covers what it covered before. -/
theorem Watched.wait {timeout asked : Nat} (h : Watched s) (hf : Frame s w (s.enterWait w timeout))
    (hpc : (s.workers w).pc = .wait timeout asked) (hok : Heeded s (.worker w .wait)) :
    Watched (s.enterWait w timeout) := by
  obtain ⟨hterm, hasked⟩ := h.asked w
  rw [Heeded, hpc] at hok
  dsimp only at hok
  refine h.of_quiet hf rfl rfl rfl le_rfl ?_ (Or.inr (Or.inr ?_)) ?_
  · simp [enterWait, hterm, Worker.AskedBy, Pc.asked]
  · simp [hpc, Pc.scans]
  · rcases hok with hcare | hothers | ⟨hpos, hlong⟩
    · exact Or.inl fun t _ => Or.inl (hcare.moves hf le_rfl (by simp [hpc, Pc.asks, Pc.scans]))
    · refine Or.inl fun t ht => Or.inr ?_
      obtain ⟨v, hne, hv⟩ := hothers t ht
      exact ⟨v, by rw [hf.others v hne]; exact hv⟩
    · refine Or.inr ⟨by simp [hpc, Pc.asks, Pc.scans], fun t hc => ?_⟩
      rw [Worker.Covers, hpc] at hc
      have hask : asked ≤ s.now := hasked asked (by rw [hpc]; rfl)
      have hd : waitFor (clampTimeout timeout) = some (int32 (clampTimeout timeout)).toNat := by
        rw [waitFor, if_neg (by omega)]
      have hle := waitFor_le hd
      have hcl := clampTimeout_le timeout
      rw [enterWait, goto_self, Worker.Covers, hd]
      refine ⟨s.now + (int32 (clampTimeout timeout)).toNat, rfl, ?_⟩
      dsimp only at hc
      omega

theorem Watched.interrupt {timeout : Nat} {ends : Option Nat} (h : Watched s)
    (hf : Frame s w (s.enterWait w timeout)) (hpc : (s.workers w).pc = .blocked timeout ends)
    (hok : Heeded s (.worker w .interrupt)) : Watched (s.enterWait w timeout) := by
  obtain ⟨hterm, hasked⟩ := h.asked w
  rw [Heeded, hpc] at hok
  dsimp only at hok
  refine h.of_quiet hf rfl rfl rfl le_rfl ?_ (Or.inr (Or.inr ?_)) (Or.inl fun t ht => ?_)
  · simp [enterWait, hterm, Worker.AskedBy, Pc.asked]
  · simp [hpc, Pc.scans]
  · rcases hok with hcare | hothers
    · exact Or.inl (hcare.moves hf le_rfl (by simp [hpc, Pc.asks, Pc.scans]))
    · rcases hothers t ht with ⟨v, hne, hv⟩ | ⟨d, hd, hle⟩
      · exact Or.inr ⟨v, by rw [hf.others v hne]; exact hv⟩
      · refine Or.inr ⟨w, ?_⟩
        rw [Option.mem_def] at hd
        rw [enterWait, goto_self, Worker.Covers, hd]
        exact ⟨s.now + d, rfl, hle⟩

/-- The worker's step keeps the invariant. -/
theorem Watched.moves (h : Watched s) (hm : Moves s w m s') (hok : Heeded s (.worker w m)) : Watched s' := by
  have hf := hm.frame
  have hb := hm.bounded h.bounded
  obtain ⟨hterm, hasked⟩ := h.asked w
  cases hm with
  | tickleCheck => exact h.of_stay hf rfl rfl rfl le_rfl (by simp) (by simp)
  | tickleWrite => exact h.of_stay hf rfl rfl rfl (Nat.le_succ _) (by simp) (by simp)
  | pendingDown => exact h.of_stay hf rfl rfl rfl le_rfl (by simp) (by simp)
  | pickNone hpc hfind =>
    refine h.of_quiet hf rfl rfl rfl le_rfl ?_ (Or.inl (find?_none_runnable hfind))
      (Or.inl fun _ _ => Or.inl (timerCare_of_asks w (by simp [Pc.asks])))
    simp [Worker.AskedBy, hterm, Pc.asked]
  | @beginOver t f g hpc hfib hover =>
    have hquiet : (∀ t ∈ s.queue, ¬s.Runnable t) ∨ (∃ v ≠ w, (s.workers v).pc.scans = true) ∨ 0 < s.pipe ∨
        0 < s.writing ∨ 0 < s.owed .task := by
      obtain ⟨fiber, thread⟩ := t
      obtain rfl : fiber = some f := hfib
      rw [Heeded, hpc] at hok
      simpa [hover] using hok
    refine h.of_quiet hf rfl rfl rfl le_rfl ?_ (hquiet.imp_right fun hc => Or.inl ?_)
      (Or.inl fun _ _ => Or.inl (timerCare_of_asks w (by simp [Pc.asks])))
    · simp [Worker.AskedBy, hterm, Pc.asked]
    · refine hc.imp_left fun ⟨v, hne, hv⟩ => ⟨v, ?_⟩
      rwa [hf.others v hne]
  | idleLeft _ ht =>
    rw [hterm] at ht
    cases ht
  | idleEnter hpc =>
    refine h.of_quiet hf rfl rfl rfl le_rfl ?_ (Or.inr (Or.inr (by simp [hpc, Pc.scans])))
      (Or.inl fun _ _ => Or.inl (timerCare_of_asks w (by simp [Pc.asks])))
    simp [Worker.AskedBy, hterm, Pc.asked]
  | ask hpc => exact h.ask hf hpc
  | readPending hpc =>
    rw [hpc] at hasked
    refine h.of_quiet hf rfl rfl rfl le_rfl ?_ (Or.inr (Or.inr (by simp [hpc, Pc.scans])))
      (Or.inr ⟨by simp [hpc, Pc.asks, Pc.scans], by simp [Worker.Covers, hpc]⟩)
    by_cases hzero : s.pendingEventCount = 0 <;>
      simpa [State.readPending, hzero, Worker.AskedBy, hterm, Pc.asked] using hasked
  | readQueueTerm _ hstop =>
    rw [h.autoStop] at hstop
    cases hstop
  | readQueueWait hpc =>
    rw [hpc] at hasked
    refine h.of_quiet hf rfl rfl rfl le_rfl ?_ (Or.inr (Or.inr (by simp [hpc, Pc.scans])))
      (Or.inr ⟨by simp [hpc, Pc.asks, Pc.scans], by simp [Worker.Covers, hpc]⟩)
    simpa [Worker.AskedBy, hterm, Pc.asked] using hasked
  | wait hpc => exact h.wait hf hpc hok
  | interrupt hpc => exact h.interrupt hf hpc hok
  | _ => exact h.of_scans hf hb (by simp [*, addTimerBy]) (by simp [*, addTimerBy, Pc.scans])

/-! ### The steps of the threads outside -/

/-- Care for the queue depends on the workers, the pipe and the callers only. -/
theorem TaskCare.of_eq {k k' : Nat} (h : s.TaskCare k) (hw : s'.workers = s.workers) (hp : s.pipe ≤ s'.pipe)
    (hwr : s.writing ≤ s'.writing) (ho : k < s.owed .task → k' < s'.owed .task) : s'.TaskCare k' :=
  h.imp (fun ⟨w, hs⟩ => ⟨w, by rwa [hw]⟩) (Or.imp hp.trans_lt' (Or.imp hwr.trans_lt' ho))

theorem TimerCare.of_eq {k k' : Nat} (h : s.TimerCare k) (hw : s'.workers = s.workers) (hp : s.pipe ≤ s'.pipe)
    (hwr : s.writing ≤ s'.writing) (ho : k < s.owed .timer → k' < s'.owed .timer) : s'.TimerCare k' :=
  h.imp (fun ⟨w, hs⟩ => ⟨w, by rwa [hw]⟩) (Or.imp hp.trans_lt' (Or.imp hwr.trans_lt' ho))

theorem Covered.of_eq {t t' : Timer} (h : s.Covered t) (hw : s'.workers = s.workers) (hnow : s.now ≤ s'.now)
    (ht : t.next ≤ t'.next) : s'.Covered t' := by
  obtain ⟨w, hc⟩ := h
  exact ⟨w, by rw [hw]; exact hc.mono hnow ht⟩

/-- A timer that was not inserted at the front has an earlier one before it. -/
theorem exists_earlier {m : TimerManager} {t : Timer} (h : (t.insertInto m.timers).head? ≠ some t) :
    ∃ u ∈ m.timers, u.next ≤ t.next := by
  cases hm : m.timers with
  | nil => simp [hm, Timer.insertInto] at h
  | cons u us =>
    rw [hm, Timer.insertInto] at h
    refine ⟨u, List.mem_cons_self, ?_⟩
    split_ifs at h with htu hut
    · simp at h
    · exact TimerManager.next_le_of_before hut
    · unfold Timer.before at htu
      omega

theorem Watched.schedule {ts : List Task} (h : Watched s) (hs : s.outside (.schedule ts) = some s')
    (hok : Heeded s (.outside (.schedule ts))) : Watched s' := by
  simp only [State.outside] at hs
  split_ifs at hs with hnil hempty
  · cases hs
    exact h
  · cases hs
    refine ⟨h.autoStop, h.clock, h.bounded, h.asked, fun _ => Or.inr (Or.inr (Or.inr ?_)), fun t ht => ?_⟩
    · simp [owe]
    · exact (h.timers t ht).imp (·.of_eq rfl le_rfl le_rfl (by simp [owe])) (·.of_eq rfl le_rfl le_rfl)
  · cases hs
    refine ⟨h.autoStop, h.clock, h.bounded, h.asked, ?_, h.timers⟩
    rintro ⟨t, ht, hr⟩
    rcases hok with he | hcare | hpinned
    · exact absurd he hempty
    · exact hcare
    · rcases List.mem_append.mp ht with ht | ht
      · exact h.tasks ⟨t, ht, hr⟩
      · exact absurd hr.1 (hpinned t ht)

theorem Watched.addTimer {addr ms : Nat} {recurring : Bool} (h : Watched s)
    (hs : s.outside (.addTimer addr ms recurring) = some s') (hok : Heeded s (.outside (.addTimer addr ms recurring))) :
    Watched s' := by
  let new := Timer.new addr s.now ms recurring
  have hold : ∀ u ∈ s.timers.timers, ∀ x : Timer, u.next ≤ x.next → s.TimerCare 0 ∨ s.Covered x :=
    fun u hu x hle => (h.timers u hu).imp_right (·.of_eq rfl le_rfl hle)
  have hall : ∀ x ∈ (s.timers.addTimer new).2.timers,
      (s.timers.addTimer new).1 = true ∨ s.TimerCare 0 ∨ s.Covered x := by
    intro x hx
    rcases TimerManager.mem_addTimer hx with rfl | hx
    · by_cases hfront : (new.insertInto s.timers.timers).head? = some new
      · rcases hok with htick | hcare | hcov | hback
        · exact Or.inl (decide_eq_true ⟨hfront, htick⟩)
        · exact Or.inr (Or.inl hcare)
        · exact Or.inr (Or.inr hcov)
        · exact absurd hfront hback
      · obtain ⟨u, hu, hle⟩ := exists_earlier hfront
        exact Or.inr (hold u hu new hle)
    · exact Or.inr (hold x hx x le_rfl)
  cases hs
  refine ⟨h.autoStop, h.clock, h.bounded.addTimer, h.asked, fun ht => ?_, fun x hx => ?_⟩
  · exact (h.tasks ht).of_eq rfl le_rfl le_rfl (by simp [owe])
  · rcases hall x hx with hfront | hcare | hcov
    · refine Or.inl (Or.inr (Or.inr (Or.inr ?_)))
      show 0 < Function.update s.owed .timer (s.owed .timer + if (s.timers.addTimer new).1 then 1 else 0) .timer
      rw [Function.update_self, hfront, if_pos rfl]
      exact Nat.succ_pos _
    · refine Or.inl (hcare.of_eq rfl le_rfl le_rfl fun ho => ?_)
      simp only [owe, Function.update_self]
      omega
    · exact Or.inr (hcov.of_eq rfl le_rfl le_rfl)

theorem Watched.tickleCheck {c : Cause} (h : Watched s) (hs : s.outside (.tickleCheck c) = some s')
    (hok : Heeded s (.outside (.tickleCheck c))) : Watched s' := by
  simp only [State.outside] at hs
  split_ifs at hs with hzero hidle
  · cases hs
    -- The call returns without a write: what is left to care for is what the condition says.
    cases c with
    | task =>
      refine ⟨h.autoStop, h.clock, h.bounded, h.asked, ?_, fun t ht => ?_⟩
      · rintro ⟨t, ht, hr⟩
        rcases hok with hi | hcare | hnone
        · omega
        · refine hcare.of_eq rfl le_rfl le_rfl fun ho => ?_
          simp only [Function.update_self]
          omega
        · exact absurd hr (hnone t ht)
      · exact (h.timers t ht).imp (·.of_eq rfl le_rfl le_rfl (by simp)) (·.of_eq rfl le_rfl le_rfl)
    | timer =>
      refine ⟨h.autoStop, h.clock, h.bounded, h.asked, fun ht => ?_, fun t ht => ?_⟩
      · exact (h.tasks ht).of_eq rfl le_rfl le_rfl (by simp)
      · rcases hok with hi | hcare | hcov
        · omega
        · refine Or.inl (hcare.of_eq rfl le_rfl le_rfl fun ho => ?_)
          simp only [Function.update_self]
          omega
        · exact Or.inr ((hcov t ht).of_eq rfl le_rfl le_rfl)
    | stop =>
      refine ⟨h.autoStop, h.clock, h.bounded, h.asked, fun ht => ?_, fun t ht => ?_⟩
      · exact (h.tasks ht).of_eq rfl le_rfl le_rfl (by simp)
      · exact (h.timers t ht).imp (·.of_eq rfl le_rfl le_rfl (by simp)) (·.of_eq rfl le_rfl le_rfl)
  · cases hs
    have hw : 0 < s.writing + 1 := Nat.succ_pos _
    exact ⟨h.autoStop, h.clock, h.bounded, h.asked, fun _ => Or.inr (Or.inr (Or.inl hw)),
      fun _ _ => Or.inl (Or.inr (Or.inr (Or.inl hw)))⟩

theorem Watched.outside {o : Outside} (h : Watched s) (hs : s.outside o = some s') (hcall : Callers (.outside o : Act n))
    (hok : Heeded s (.outside o)) : Watched s' := by
  cases o with
  | schedule ts => exact h.schedule hs hok
  | addTimer addr ms recurring => exact h.addTimer hs hok
  | tickleCheck c => exact h.tickleCheck hs hok
  | tickleWrite =>
    simp only [State.outside] at hs
    split_ifs at hs
    cases hs
    have hp : 0 < s.pipe + 1 := Nat.succ_pos _
    exact ⟨h.autoStop, h.clock, h.bounded, h.asked, fun _ => Or.inr (Or.inl hp),
      fun _ _ => Or.inl (Or.inr (Or.inl hp))⟩
  | stop => exact absurd rfl hcall
  | pollStopping =>
    simp only [State.outside, h.autoStop] at hs
    cases hs
  | tick ms =>
    cases hs
    have hle : s.now ≤ s.now + ms := Nat.le_add_right _ _
    refine ⟨h.autoStop, Nat.add_pos_left h.clock ms, h.bounded, fun w => ?_, h.tasks, fun t ht => ?_⟩
    · exact ⟨(h.asked w).1, fun a ha => ((h.asked w).2 a ha).trans hle⟩
    · exact (h.timers t ht).imp (·.of_eq rfl le_rfl le_rfl id) (·.of_eq rfl hle le_rfl)

/-! ### Runs -/

/-- In every run of callers and workers whose wake-ups are heeded, no wake-up is ever lost. -/
theorem never_lost {now : Nat} (hnow : 0 < now) {s : State n}
    (h : Reach step (fun s a => Callers a ∧ Heeded s a) (init n now) s) : ¬s.Lost := by
  refine (h.invariant (watched_init n hnow) fun s a s' hw hok hs => ?_ : Watched s).not_lost
  cases a with
  | worker w m => exact hw.moves (move_inv hs) hok.2
  | outside o => exact hw.outside hs hok.1 hok.2

/-- A callback scheduled before the worker has looked, with its byte written, and the worker at the queue. -/
theorem never_lost_one : ∃ s : State 1, s.queue = [⟨none, none⟩] ∧ s.pipe = 1 ∧ ¬s.Lost := by
  let s₁ : State 1 := { init 1 1 with queue := [⟨none, none⟩] }.owe .task 1
  let s₂ : State 1 := { s₁ with owed := Function.update s₁.owed .task 0, writing := 1 }
  let s₃ : State 1 := { s₂ with writing := 0, pipe := 1 }
  have hs₁ : step (init 1 1) (.outside (.schedule [⟨none, none⟩])) = some s₁ := rfl
  have hs₂ : step s₁ (.outside (.tickleCheck .task)) = some s₂ := rfl
  have hs₃ : step s₂ (.outside .tickleWrite) = some s₃ := rfl
  have hok₁ : Heeded (init 1 1) (.outside (.schedule [⟨none, none⟩])) := Or.inl rfl
  have hok₂ : Heeded s₁ (.outside (.tickleCheck .task)) := Or.inl rfl
  have hok₃ : Heeded s₂ (.outside .tickleWrite) := trivial
  have hr : Reach step (fun s a => Callers a ∧ Heeded s a) (init 1 1) s₃ :=
    ((Reach.start.next ⟨by decide, hok₁⟩ hs₁).next ⟨by decide, hok₂⟩ hs₂).next ⟨by decide, hok₃⟩ hs₃
  exact ⟨s₃, rfl, rfl, never_lost Nat.one_pos hr⟩

/-- One worker goes to sleep. A callback is scheduled, and `tickle()` does not write, since a worker is idle. -/
theorem wakeup_lost : ¬∀ n, ∀ now > 0, ∀ s : State n, Reach step (fun _ a => Callers a) (init n now) s → ¬s.Lost := by
  intro h
  let sleepRun : List (Act 1) := [.worker 0 .scan, .worker 0 .idle, .worker 0 .ask, .worker 0 .readPending,
    .worker 0 .readQueue, .worker 0 .wait, .outside (.schedule [⟨none, none⟩]), .outside (.tickleCheck .task)]
  let s := (exec step (fun _ a => Callers a) (init 1 1) sleepRun).get (by decide)
  have hr : Reach step (fun _ a => Callers a) (init 1 1) s := reach_of_exec (Option.some_get _).symm
  have hpc : (s.workers 0).pc = .blocked 3000 (some 3001) := by decide
  have hqueue : s.queue = [⟨none, none⟩] := by decide
  refine h 1 1 (by decide) s hr ⟨fun w => ?_, by decide, by decide, fun c => by cases c <;> decide, Or.inl ?_⟩
  · obtain rfl := Subsingleton.elim w 0
    rw [Worker.Asleep, hpc]
    rintro e ⟨⟩
    decide
  · rw [hqueue]
    exact ⟨_, List.mem_cons_self, rfl, nofun⟩

end State
end IOManager
end MyHttp

import MyHttp.IOManager.Workers
import MyHttp.Lib.Run
import MyHttp.Theorems.Timer

/-! Everything one step of a worker can do (`Moves`), and what such a step leaves as it is. After most steps the
    worker is going to scan the queue again; the others are the way into `epoll_wait`. -/

namespace MyHttp
namespace IOManager

open Lib.Machine

variable {n : Nat}

/-- The worker scans the queue again before it can block. -/
def Pc.scans : Pc → Bool
  | .noTask | .ask | .readPending _ | .readQueue _ | .wait _ _ | .blocked _ _ | .left => false
  | _ => true

/-- The worker asks for the next timer again before it can block. -/
def Pc.asks : Pc → Bool
  | .noTask | .ask => true
  | pc => pc.scans

theorem Pc.asks_of_scans {pc : Pc} (h : pc.scans = true) : pc.asks = true := by
  cases pc <;> first | rfl | exact h

namespace State

variable {s s' : State n} {w v : Fin n} {m : Move} {pc : Pc} {k : Worker}

/-! ### The parts of a step -/

@[simp] theorem setWorker_self : (s.setWorker w k).workers w = k := Function.update_self ..

@[simp] theorem goto_self : (s.goto w pc).workers w = { s.workers w with pc } := Function.update_self ..

theorem setWorker_ne (h : v ≠ w) : (s.setWorker w k).workers v = s.workers v := Function.update_of_ne h ..

@[simp] theorem setFiber_workers {f : FiberId} {st : FiberState} : (s.setFiber f st).workers = s.workers := rfl

/-- What the step of worker `w` leaves as it is, whatever the step is. -/
structure Frame (s : State n) (w : Fin n) (s' : State n) : Prop where
  others : ∀ v ≠ w, s'.workers v = s.workers v
  now_eq : s'.now = s.now
  autoStop_eq : s'.autoStop = s.autoStop
  stopping_eq : s'.stopping = s.stopping
  owed_eq : s'.owed = s.owed
  writing_eq : s'.writing = s.writing

theorem frame_setWorker : Frame s w (s.setWorker w k) := ⟨fun _ h => setWorker_ne h, rfl, rfl, rfl, rfl, rfl⟩

theorem frame_setFiber {f : FiberId} {st : FiberState} : Frame s w ((s.setFiber f st).goto w pc) :=
  ⟨fun _ h => setWorker_ne h, rfl, rfl, rfl, rfl, rfl⟩

theorem Frame.trans {s'' : State n} (h₁ : Frame s w s') (h₂ : Frame s' w s'') : Frame s w s'' :=
  ⟨fun v hv => (h₂.others v hv).trans (h₁.others v hv), h₂.now_eq.trans h₁.now_eq,
    h₂.autoStop_eq.trans h₁.autoStop_eq, h₂.stopping_eq.trans h₁.stopping_eq, h₂.owed_eq.trans h₁.owed_eq,
    h₂.writing_eq.trans h₁.writing_eq⟩

/-- What holds of every worker holds after the step if it holds of the one that moved. -/
theorem Frame.each (hf : Frame s w s') {P : Worker → Prop} (h : ∀ v, P (s.workers v)) (hw : P (s'.workers w)) :
    ∀ v, P (s'.workers v) := by
  intro v
  rcases eq_or_ne v w with rfl | hne
  · exact hw
  · rw [hf.others v hne]
    exact h v

theorem Frame.each_back (hf : Frame s w s') {P : Worker → Prop} (h : ∀ v, P (s'.workers v))
    (hw : P (s'.workers w) → P (s.workers w)) : ∀ v, P (s.workers v) := by
  intro v
  rcases eq_or_ne v w with rfl | hne
  · exact hw (h v)
  · rw [← hf.others v hne]
    exact h v

/-- `scheduleBy` changes the queue and what the worker owes. -/
structure Scheduled (s : State n) (w : Fin n) (s' : State n) : Prop where
  frame : Frame s w s'
  pc_eq : (s'.workers w).pc = (s.workers w).pc
  term_eq : (s'.workers w).term = (s.workers w).term
  timers_eq : s'.timers = s.timers

theorem scheduled (s : State n) (w : Fin n) (ts : List Task) : Scheduled s w (s.scheduleBy w ts) := by
  unfold scheduleBy
  split
  · exact ⟨⟨fun _ _ => rfl, rfl, rfl, rfl, rfl, rfl⟩, rfl, rfl, rfl⟩
  · exact ⟨⟨fun _ h => setWorker_ne h, rfl, rfl, rfl, rfl, rfl⟩, by rw [setWorker_self], by rw [setWorker_self], rfl⟩

@[simp] theorem scheduleBy_pc {ts : List Task} : ((s.scheduleBy w ts).workers w).pc = (s.workers w).pc :=
  (scheduled s w ts).pc_eq

@[simp] theorem scheduleBy_term {ts : List Task} : ((s.scheduleBy w ts).workers w).term = (s.workers w).term :=
  (scheduled s w ts).term_eq

@[simp] theorem scheduleBy_timers {ts : List Task} : (s.scheduleBy w ts).timers = s.timers :=
  (scheduled s w ts).timers_eq

/-! ### Inversion -/

/-- The steps of worker `w`, case by case. -/
inductive Moves (s : State n) (w : Fin n) : Move → State n → Prop
  | tickleCheck : (s.workers w).owes = .check →
      Moves s w .tickleCheck (s.setWorker w { s.workers w with
        owes := if s.idleThreadCount > 0 then .none else .write })
  | tickleWrite : (s.workers w).owes = .write →
      Moves s w .tickleWrite { s.setWorker w { s.workers w with owes := .none } with pipe := s.pipe + 1 }
  | pendingDown :
      Moves s w .pendingDown { s.setWorker w { s.workers w with minus := false } with
        pendingEventCount := s.pendingEventCount - 1 }
  | pick {t : Task} {owes : Tickle} : (s.workers w).pc = .scan → s.queue.find? (s.takeable w) = some t →
      Moves s w .scan { s.setWorker w { s.workers w with pc := .picked t, owes } with
        queue := s.queue.eraseP (s.takeable w), activeThreadCount := s.activeThreadCount + 1 }
  | pickNone {owes : Tickle} : (s.workers w).pc = .scan → s.queue.find? (s.takeable w) = none →
      Moves s w .scan (s.setWorker w { s.workers w with pc := .noTask, owes })
  | beginFiber {t : Task} {f g : FiberId} : (s.workers w).pc = .picked t → t.fiber = some f →
      (s.fibers f).over = false → s.fibers f ≠ .exec →
      Moves s w (.begin g) ((s.setFiber f .exec).goto w (.running f false))
  | beginOver {t : Task} {f g : FiberId} : (s.workers w).pc = .picked t → t.fiber = some f →
      (s.fibers f).over = true → Moves s w (.begin g) (s.goto w .noTask)
  | beginCallback {t : Task} {g : FiberId} : (s.workers w).pc = .picked t → t.fiber = none →
      Moves s w (.begin g) ((s.setFiber g .exec).goto w (.running g true))
  | schedule {f : FiberId} {cb : Bool} {ts : List Task} : (s.workers w).pc = .running f cb →
      Moves s w (.schedule ts) (s.scheduleBy w ts)
  | addTimer {f : FiberId} {cb : Bool} {addr ms : Nat} {recurring : Bool} : (s.workers w).pc = .running f cb →
      Moves s w (.addTimer addr ms recurring) (s.addTimerBy w addr ms recurring)
  | cancelTimer {f : FiberId} {cb : Bool} {addr : Nat} : (s.workers w).pc = .running f cb →
      Moves s w (.cancelTimer addr) { s with timers := s.timers.erase addr }
  | addEvent {f : FiberId} {cb : Bool} : (s.workers w).pc = .running f cb →
      Moves s w .addEvent { s with pendingEventCount := s.pendingEventCount + 1 }
  | delEvent {f : FiberId} {cb : Bool} : (s.workers w).pc = .running f cb →
      Moves s w .delEvent { s with pendingEventCount := s.pendingEventCount - 1 }
  | cancelEvent {f : FiberId} {cb : Bool} {t : Task} : (s.workers w).pc = .running f cb →
      Moves s w (.cancelEvent t) ((s.setWorker w { s.workers w with minus := true }).scheduleBy w [t])
  | yield {f : FiberId} {cb : Bool} {st : FiberState} : (s.workers w).pc = .running f cb → st ≠ .exec →
      Moves s w (.yield st) ((s.setFiber f st).goto w (.back f cb))
  | back {f : FiberId} {cb : Bool} : (s.workers w).pc = .back f cb →
      Moves s w .back { s.goto w (.settle f cb) with activeThreadCount := s.activeThreadCount - 1 }
  | settleReady {f : FiberId} {cb : Bool} : (s.workers w).pc = .settle f cb → s.fibers f = .ready →
      Moves s w .settle ((s.goto w .scan).scheduleBy w [⟨some f, none⟩])
  | settleOver {f : FiberId} {cb : Bool} {st : FiberState} : (s.workers w).pc = .settle f cb →
      (s.fibers f).over = true → st ≠ .exec → Moves s w .settle ((s.setFiber f st).goto w .scan)
  | settleHold {f : FiberId} {cb : Bool} : (s.workers w).pc = .settle f cb →
      Moves s w .settle ((s.setFiber f .hold).goto w .scan)
  | idleLeft : (s.workers w).pc = .noTask → (s.workers w).term = true → Moves s w .idle (s.goto w .left)
  | idleEnter : (s.workers w).pc = .noTask → (s.workers w).term = false →
      Moves s w .idle { s.goto w .ask with idleThreadCount := s.idleThreadCount + 1 }
  | ask : (s.workers w).pc = .ask → Moves s w .ask (s.ask w)
  | readPending {asked : Nat} : (s.workers w).pc = .readPending asked →
      Moves s w .readPending (s.readPending w asked)
  | readQueueTerm {asked : Nat} : (s.workers w).pc = .readQueue asked → s.autoStop = true → s.stopping = true →
      s.queue = [] → s.activeThreadCount = 0 →
      Moves s w .readQueue (s.setWorker w { s.workers w with pc := .leaveIdle, term := true })
  | readQueueWait {asked : Nat} : (s.workers w).pc = .readQueue asked →
      Moves s w .readQueue (s.goto w (.wait maxUint64 asked))
  | wait {timeout asked : Nat} : (s.workers w).pc = .wait timeout asked →
      Moves s w .wait (s.enterWait w timeout)
  | interrupt {timeout : Nat} {ends : Option Nat} : (s.workers w).pc = .blocked timeout ends →
      Moves s w .interrupt (s.enterWait w timeout)
  | wake {timeout : Nat} {ends : Option Nat} {drain : Bool} : (s.workers w).pc = .blocked timeout ends →
      Moves s w (.wake drain) (s.goto w (.woken drain))
  | expire {drain : Bool} {probe : Nat} : (s.workers w).pc = .woken drain →
      Moves s w (.expire probe) ({ s with timers := (s.timers.listExpiredCb probe s.now).2 }.goto w
        (.expired (s.timers.listExpiredCb probe s.now).1.length drain))
  | scheduleExpired {cbs : Nat} {drain : Bool} : (s.workers w).pc = .expired cbs drain →
      Moves s w .scheduleExpired ((s.goto w (.dispatch drain)).scheduleBy w (List.replicate cbs ⟨none, none⟩))
  | drain {drain : Bool} : (s.workers w).pc = .dispatch drain →
      Moves s w .drain { s.goto w (.dispatch false) with pipe := 0 }
  | trigger {drain : Bool} {t : Task} : (s.workers w).pc = .dispatch drain →
      Moves s w (.trigger t) ((s.setWorker w { s.workers w with minus := true }).scheduleBy w [t])
  | finish {drain : Bool} : (s.workers w).pc = .dispatch drain → Moves s w .finish (s.goto w .leaveIdle)
  | leaveIdle : (s.workers w).pc = .leaveIdle →
      Moves s w .leaveIdle { s.goto w .scan with idleThreadCount := s.idleThreadCount - 1 }

theorem setFiber_self {f : FiberId} : s.setFiber f (s.fibers f) = s := by
  rw [setFiber, Function.update_eq_self]

theorem act_inv (h : s.act w pc m = some s') (hpc : (s.workers w).pc = pc) : Moves s w m s' := by
  cases m with
  | scan =>
    cases pc <;> simp only [act, reduceCtorEq] at h
    cases h
    unfold scan
    dsimp only
    split
    case h_1 t hfind => exact .pick hpc hfind
    case h_2 hfind => exact .pickNone hpc hfind
  | begin g =>
    cases pc <;> simp only [act, reduceCtorEq] at h
    unfold begin at h
    split at h
    case h_1 f hf =>
      split at h
      case isTrue hover =>
        cases h
        exact .beginOver hpc hf hover
      case isFalse hover =>
        split at h
        · cases h
        · cases h
          exact .beginFiber hpc hf (by simpa using hover) (by assumption)
    case h_2 hf =>
      cases h
      exact .beginCallback hpc hf
  | settle =>
    cases pc <;> simp only [act, reduceCtorEq] at h
    rename_i f cb
    cases h
    unfold settle
    split
    case isTrue hready => exact .settleReady hpc hready
    case isFalse =>
      split
      case isTrue hover =>
        split
        · exact .settleOver hpc hover nofun
        · have hst : s.fibers f ≠ .exec := by
            intro he
            simp [he, FiberState.over] at hover
          have hm := Moves.settleOver hpc hover hst
          rwa [setFiber_self] at hm
      case isFalse => exact .settleHold hpc
  | idle =>
    cases pc <;> simp only [act, reduceCtorEq] at h
    cases h
    unfold idleBranch
    split
    case isTrue hterm => exact .idleLeft hpc hterm
    case isFalse hterm => exact .idleEnter hpc (by simpa using hterm)
  | readQueue =>
    cases pc <;> simp only [act, reduceCtorEq] at h
    cases h
    unfold readQueue
    split
    case isTrue hstop => exact .readQueueTerm hpc hstop.1 hstop.2.1 hstop.2.2.1 hstop.2.2.2
    case isFalse => exact .readQueueWait hpc
  | wake drain =>
    cases pc <;> simp only [act, reduceCtorEq] at h
    split at h
    · cases h
      exact .wake hpc
    · cases h
  | delEvent =>
    cases pc <;> simp only [act, reduceCtorEq] at h
    split at h
    · cases h
    · cases h
      exact .delEvent hpc
  | cancelEvent t =>
    cases pc <;> simp only [act, reduceCtorEq] at h
    split at h
    · cases h
    · cases h
      exact .cancelEvent hpc
  | trigger t =>
    cases pc <;> simp only [act, reduceCtorEq] at h
    split at h
    · cases h
    · cases h
      exact .trigger hpc
  | yield st =>
    cases pc <;> simp only [act, reduceCtorEq] at h
    split at h
    · cases h
    · cases h
      exact .yield hpc (by assumption)
  | drain =>
    cases pc <;> simp only [act, reduceCtorEq] at h
    split at h
    · cases h
      exact .drain hpc
    · cases h
  | finish =>
    cases pc <;> simp only [act, reduceCtorEq] at h
    split at h
    · cases h
    · cases h
      exact .finish hpc
  | tickleCheck => cases pc <;> cases h
  | tickleWrite => cases pc <;> cases h
  | pendingDown => cases pc <;> cases h
  | schedule ts => cases pc <;> cases h; exact .schedule hpc
  | addTimer addr ms recurring => cases pc <;> cases h; exact .addTimer hpc
  | cancelTimer addr => cases pc <;> cases h; exact .cancelTimer hpc
  | addEvent => cases pc <;> cases h; exact .addEvent hpc
  | back => cases pc <;> cases h; exact .back hpc
  | ask => cases pc <;> cases h; exact .ask hpc
  | readPending => cases pc <;> cases h; exact .readPending hpc
  | wait => cases pc <;> cases h; exact .wait hpc
  | interrupt => cases pc <;> cases h; exact .interrupt hpc
  | expire probe => cases pc <;> cases h; exact .expire hpc
  | scheduleExpired => cases pc <;> cases h; exact .scheduleExpired hpc
  | leaveIdle => cases pc <;> cases h; exact .leaveIdle hpc

theorem move_inv (h : s.move w m = some s') : Moves s w m s' := by
  unfold move at h
  dsimp only at h
  split at h
  case h_1 howes =>
    cases h
    exact .tickleCheck howes
  case h_2 howes =>
    cases h
    exact .tickleWrite howes
  case h_3 =>
    cases h
    exact .pendingDown
  case h_4 => exact act_inv h rfl
  case h_5 => cases h

theorem Moves.frame (h : Moves s w m s') : Frame s w s' := by
  cases h with
  | schedule => exact (scheduled s w _).frame
  | cancelEvent | trigger => exact frame_setWorker.trans (scheduled _ w _).frame
  | settleReady | scheduleExpired => exact frame_setWorker.trans (scheduled _ w _).frame
  | beginFiber | beginCallback | yield | settleOver | settleHold => exact frame_setFiber
  | cancelTimer | addEvent | delEvent => exact ⟨fun _ _ => rfl, rfl, rfl, rfl, rfl, rfl⟩
  | _ => exact ⟨fun _ h => setWorker_ne h, rfl, rfl, rfl, rfl, rfl⟩

theorem Moves.bounded (h : Moves s w m s') (hb : s.timers.Bounded) : s'.timers.Bounded := by
  cases h with
  | addTimer => exact hb.addTimer
  | cancelTimer => exact fun x hx => hb x (TimerManager.mem_erase hx)
  | expire => exact hb.listExpiredCb
  | schedule | cancelEvent | trigger | settleReady | scheduleExpired => rwa [scheduleBy_timers]
  | readPending | readQueueWait => exact hb
  | _ => exact hb

end State
end IOManager
end MyHttp

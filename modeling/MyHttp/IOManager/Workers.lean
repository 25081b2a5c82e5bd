import MyHttp.Fiber
import MyHttp.Timer
import Mathlib.Logic.Function.Basic

/-! The workers of an `IOManager` (`Scheduler::run`, `IOManager::idle`, `tickle`, `stopping`) together with the
    threads that call it from outside. One step is one critical section, one atomic access or one system call.
    The descriptors are only counted here: which event of which descriptor is reported is `IOManager.Events`. -/

namespace MyHttp
namespace IOManager

open Lib.Machine

/-- An entry of the task queue, `FiberAndThread`. Without a fiber it is a callback. -/
structure Task where
  fiber : Option FiberId
  thread : Option Nat
deriving DecidableEq, Repr

/-- How far a worker is with a call of `tickle()`. -/
inductive Tickle where
  | none
  | check
  | write
deriving DecidableEq, Repr

/-- Where a worker is. From `ask` to `leaveIdle` it is inside its idle fiber. -/
inductive Pc where
  /-- before the critical section on the queue -/
  | scan
  | picked (t : Task)
  | running (f : FiberId) (cb : Bool)
  /-- back from the fiber, before `--m_activeThreadCount` -/
  | back (f : FiberId) (cb : Bool)
  /-- before the look at the state the fiber was left in -/
  | settle (f : FiberId) (cb : Bool)
  | noTask
  /-- before `getNextTimer` inside `stopping` -/
  | ask
  | readPending (asked : Nat)
  | readQueue (asked : Nat)
  /-- before `epoll_wait`, with `next_timeout` as read at time `asked` -/
  | wait (timeout asked : Nat)
  /-- in `epoll_wait`; without an end the wait is infinite -/
  | blocked (timeout : Nat) (ends : Option Nat)
  | woken (drain : Bool)
  | expired (cbs : Nat) (drain : Bool)
  | dispatch (drain : Bool)
  /-- before `--m_idleThreadCount` -/
  | leaveIdle
  | left
deriving DecidableEq, Repr

structure Worker where
  pc : Pc
  /-- the idle fiber is `TERM` -/
  term : Bool
  owes : Tickle
  /-- a waiter was scheduled, `--m_pendingEventCount` is next -/
  minus : Bool
deriving DecidableEq, Repr

/-- Why a thread outside calls `tickle()`. -/
inductive Cause where
  | task
  | timer
  | stop
deriving DecidableEq, Repr

structure State (n : Nat) where
  workers : Fin n → Worker
  queue : List Task
  fibers : FiberId → FiberState
  timers : TimerManager
  now : Nat
  /-- unread bytes in the tickle pipe -/
  pipe : Nat
  idleThreadCount : Nat
  activeThreadCount : Nat
  pendingEventCount : Nat
  autoStop : Bool
  stopping : Bool
  /-- threads outside that are about to call `tickle()` -/
  owed : Cause → Nat
  /-- threads outside that are about to write to the pipe -/
  writing : Nat

/-- All workers at the start of `run`. -/
def State.init (n now : Nat) : State n where
  workers _ := ⟨.scan, false, .none, false⟩
  queue := []
  fibers _ := .init
  timers := .new now
  now := now
  pipe := 0
  idleThreadCount := 0
  activeThreadCount := 0
  pendingEventCount := 0
  autoStop := false
  stopping := false
  owed _ := 0
  writing := 0

/-! ### The parts of a step -/

namespace State

variable {n : Nat}

def setWorker (s : State n) (w : Fin n) (k : Worker) : State n :=
  { s with workers := Function.update s.workers w k }

def goto (s : State n) (w : Fin n) (pc : Pc) : State n := s.setWorker w { s.workers w with pc }

/-- `schedule`, up to the call of `tickle()` by the worker itself. -/
def scheduleBy (s : State n) (w : Fin n) (ts : List Task) : State n :=
  if ts = [] then s else
  { s.setWorker w { s.workers w with owes := if s.queue = [] then .check else .none } with queue := s.queue ++ ts }

def setFiber (s : State n) (f : FiberId) (st : FiberState) : State n :=
  { s with fibers := Function.update s.fibers f st }

/-- The entry is for this worker, and is not a fiber in state `EXEC`. -/
def takeable (s : State n) (w : Fin n) (t : Task) : Bool :=
  (t.thread = none || t.thread = some w.val) && t.fiber.all fun f => s.fibers f ≠ .exec

/-- The critical section of `run`: the first entry that may be taken, and whether entries for other threads
    were passed over. -/
def scan (s : State n) (w : Fin n) : State n :=
  let passed := s.queue.takeWhile fun t => !s.takeable w t
  let tickleMe := passed.any fun t => t.thread ≠ none && t.thread ≠ some w.val
  let owes : Tickle := if tickleMe then .check else .none
  match s.queue.find? (s.takeable w) with
  | some t =>
    { s.setWorker w { s.workers w with pc := .picked t, owes } with
      queue := s.queue.eraseP (s.takeable w), activeThreadCount := s.activeThreadCount + 1 }
  | none => s.setWorker w { s.workers w with pc := .noTask, owes }

/-- The three branches of `run` for a taken entry. `g` is the fiber that carries a callback. A fiber that is over
    leads to the idle branch. -/
def begin (s : State n) (w : Fin n) (g : FiberId) (t : Task) : Option (State n) :=
  match t.fiber with
  | some f =>
    if (s.fibers f).over then some (s.goto w .noTask)
    else if s.fibers f = .exec then none
    else some ((s.setFiber f .exec).goto w (.running f false))
  | none => some ((s.setFiber g .exec).goto w (.running g true))

/-- After `swapIn` has returned: a fiber that is `READY` is scheduled again, one that is not over is `HOLD`; the
    fiber of a callback that is over is reset. -/
def settle (s : State n) (w : Fin n) (f : FiberId) (cb : Bool) : State n :=
  if s.fibers f = .ready then (s.goto w .scan).scheduleBy w [⟨some f, none⟩]
  else if (s.fibers f).over then (if cb then (s.setFiber f .init).goto w .scan else s.goto w .scan)
  else (s.setFiber f .hold).goto w .scan

/-- The part of the wait loop that bounds `next_timeout`. -/
def clampTimeout (timeout : Nat) : Nat :=
  if timeout ≠ maxUint64 then (if int32 timeout > 3000 then 3000 else timeout) else 3000

/-- How long `epoll_wait` waits for its `int` argument; a negative one is no bound. -/
def waitFor (timeout : Nat) : Option Nat :=
  if int32 timeout < 0 then none else some (int32 timeout).toNat

/-- A call of `epoll_wait`, the first one or one after `EINTR`. -/
def enterWait (s : State n) (w : Fin n) (timeout : Nat) : State n :=
  let timeout := clampTimeout timeout
  s.goto w (.blocked timeout ((waitFor timeout).map (s.now + ·)))

/-- `getNextTimer` in `stopping`, and whether it goes on to the other conditions. -/
def ask (s : State n) (w : Fin n) : State n :=
  let (timeout, timers) := s.timers.getNextTimer s.now
  { s with timers }.goto w (if timeout = maxUint64 then .readPending s.now else .wait timeout s.now)

def readPending (s : State n) (w : Fin n) (asked : Nat) : State n :=
  s.goto w (if s.pendingEventCount = 0 then .readQueue asked else .wait maxUint64 asked)

/-- `Scheduler::stopping`, the last condition; when all of them held, the idle fiber returns. -/
def readQueue (s : State n) (w : Fin n) (asked : Nat) : State n :=
  if s.autoStop ∧ s.stopping ∧ s.queue = [] ∧ s.activeThreadCount = 0 then
    s.setWorker w { s.workers w with pc := .leaveIdle, term := true }
  else s.goto w (.wait maxUint64 asked)

/-- The idle branch of `run`. -/
def idleBranch (s : State n) (w : Fin n) : State n :=
  if (s.workers w).term then s.goto w .left
  else { s.goto w .ask with idleThreadCount := s.idleThreadCount + 1 }

/-- `addTimer` by a worker. -/
def addTimerBy (s : State n) (w : Fin n) (addr ms : Nat) (recurring : Bool) : State n :=
  let (atFront, timers) := s.timers.addTimer (.new addr s.now ms recurring)
  { s.setWorker w { s.workers w with owes := if atFront then .check else .none } with timers }

end State

/-! ### Steps -/

/-- What a worker does next, with what is left to chance: which fiber carries a callback, what the running fiber
    calls and how it yields, whether the pipe is among the reports, where the searched timer lies in memory. -/
inductive Move where
  | tickleCheck
  | tickleWrite
  | pendingDown
  | scan
  | begin (g : FiberId)
  | schedule (ts : List Task)
  | addTimer (addr ms : Nat) (recurring : Bool)
  | cancelTimer (addr : Nat)
  | addEvent
  | delEvent
  | cancelEvent (t : Task)
  | yield (st : FiberState)
  | back
  | settle
  | idle
  | ask
  | readPending
  | readQueue
  | wait
  | interrupt
  | wake (drain : Bool)
  | expire (probe : Nat)
  | scheduleExpired
  | drain
  | trigger (t : Task)
  | finish
  | leaveIdle
deriving DecidableEq, Repr

/-- What a thread outside does. `schedule` and `addTimer` end before their call of `tickle()`. -/
inductive Outside where
  | schedule (ts : List Task)
  | addTimer (addr ms : Nat) (recurring : Bool)
  | tickleCheck (c : Cause)
  | tickleWrite
  | stop
  /-- the loop at the end of `stop`, which reads the next timer again and again -/
  | pollStopping
  /-- time goes on -/
  | tick (ms : Nat)
deriving DecidableEq, Repr

inductive Act (n : Nat) where
  | worker (w : Fin n) (m : Move)
  | outside (o : Outside)
deriving DecidableEq, Repr

namespace State

variable {n : Nat}

/-- A step of worker `w` that owes neither a `tickle()` nor a decrement. -/
def act (s : State n) (w : Fin n) : Pc → Move → Option (State n)
  | .scan, .scan => some (s.scan w)
  | .picked t, .begin g => s.begin w g t
  | .running _ _, .schedule ts => some (s.scheduleBy w ts)
  | .running _ _, .addTimer addr ms recurring => some (s.addTimerBy w addr ms recurring)
  | .running _ _, .cancelTimer addr => some { s with timers := s.timers.erase addr }
  | .running _ _, .addEvent => some { s with pendingEventCount := s.pendingEventCount + 1 }
  | .running _ _, .delEvent =>
    if s.pendingEventCount = 0 then none else some { s with pendingEventCount := s.pendingEventCount - 1 }
  | .running _ _, .cancelEvent t =>
    if s.pendingEventCount = 0 then none
    else some ((s.setWorker w { s.workers w with minus := true }).scheduleBy w [t])
  | .running f cb, .yield st => if st = .exec then none else some ((s.setFiber f st).goto w (.back f cb))
  | .back f cb, .back => some { s.goto w (.settle f cb) with activeThreadCount := s.activeThreadCount - 1 }
  | .settle f cb, .settle => some (s.settle w f cb)
  | .noTask, .idle => some (s.idleBranch w)
  | .ask, .ask => some (s.ask w)
  | .readPending asked, .readPending => some (s.readPending w asked)
  | .readQueue asked, .readQueue => some (s.readQueue w asked)
  | .wait timeout _, .wait => some (s.enterWait w timeout)
  | .blocked timeout _, .interrupt => some (s.enterWait w timeout)
  | .blocked _ ends, .wake drain =>
    -- A report of the pipe, a report of a registered event, or the end of the time.
    if (drain → s.pipe > 0) ∧ (drain ∨ s.pendingEventCount > 0 ∨ ∃ e ∈ ends, e ≤ s.now) then
      some (s.goto w (.woken drain)) else none
  | .woken drain, .expire probe =>
    let (expired, timers) := s.timers.listExpiredCb probe s.now
    some ({ s with timers }.goto w (.expired expired.length drain))
  | .expired cbs drain, .scheduleExpired =>
    some ((s.goto w (.dispatch drain)).scheduleBy w (List.replicate cbs ⟨none, none⟩))
  | .dispatch drain, .drain => if drain then some { s.goto w (.dispatch false) with pipe := 0 } else none
  | .dispatch _, .trigger t =>
    if s.pendingEventCount = 0 then none
    else some ((s.setWorker w { s.workers w with minus := true }).scheduleBy w [t])
  | .dispatch drain, .finish => if drain then none else some (s.goto w .leaveIdle)
  | .leaveIdle, .leaveIdle => some { s.goto w .scan with idleThreadCount := s.idleThreadCount - 1 }
  | _, _ => none

/-- A step of worker `w`: what it owes comes first. `tickle()` writes only when no thread is idle. -/
def move (s : State n) (w : Fin n) (m : Move) : Option (State n) :=
  let k := s.workers w
  match k.owes, k.minus, m with
  | .check, _, .tickleCheck =>
    some (s.setWorker w { k with owes := if s.idleThreadCount > 0 then .none else .write })
  | .write, _, .tickleWrite => some { s.setWorker w { k with owes := .none } with pipe := s.pipe + 1 }
  | .none, true, .pendingDown =>
    some { s.setWorker w { k with minus := false } with pendingEventCount := s.pendingEventCount - 1 }
  | .none, false, m => s.act w k.pc m
  | _, _, _ => none

/-- One more call of `tickle()` is to come. -/
def owe (s : State n) (c : Cause) (k : Nat) : State n :=
  { s with owed := Function.update s.owed c (s.owed c + k) }

def outside (s : State n) : Outside → Option (State n)
  | .schedule ts =>
    if ts = [] then some s
    else if s.queue = [] then some ({ s with queue := ts }.owe .task 1)
    else some { s with queue := s.queue ++ ts }
  | .addTimer addr ms recurring =>
    let (atFront, timers) := s.timers.addTimer (.new addr s.now ms recurring)
    some ({ s with timers }.owe .timer (if atFront then 1 else 0))
  | .tickleCheck c =>
    if s.owed c = 0 then none
    else
      let s := { s with owed := Function.update s.owed c (s.owed c - 1) }
      some (if s.idleThreadCount > 0 then s else { s with writing := s.writing + 1 })
  | .tickleWrite => if s.writing = 0 then none else some { s with writing := s.writing - 1, pipe := s.pipe + 1 }
  | .stop => some ({ s with autoStop := true, stopping := true }.owe .stop n)
  | .pollStopping =>
    if s.autoStop then some { s with timers := (s.timers.getNextTimer s.now).2 } else none
  | .tick ms => some { s with now := s.now + ms }

def step (s : State n) : Act n → Option (State n)
  | .worker w m => s.move w m
  | .outside o => s.outside o

end State
end IOManager
end MyHttp

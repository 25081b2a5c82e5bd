import MyHttp.Fiber
import Mathlib.Logic.Function.Basic

/-! The workers of one `Scheduler` at the grain of single writes (`Scheduler::run`, `Fiber::swapIn`, `swapOut`,
    `YieldToHold`, `YieldToReady`, `MainFunc`): every write of `m_state`, every `swapcontext` and every critical
    section on the queue is one step. What schedules fibers and callbacks - the running functions, the idle
    fibers that dispatch events, timers, other threads - is the environment. -/

namespace MyHttp
namespace Scheduler

abbrev CallbackId := Nat

/-- What an entry of the queue is to run. -/
inductive Work where
  | fiber (f : FiberId)
  | callback (c : CallbackId)
deriving DecidableEq, Repr

/-- `FiberAndThread`. -/
structure Entry where
  work : Work
  thread : Option Nat
deriving DecidableEq, Repr

/-- The variable of `run` the fiber at hand is in: `ft.fiber` or `cb_fiber`. -/
inductive Slot where
  | ft (f : FiberId)
  | cb (f : FiberId)
deriving DecidableEq, Repr

def Slot.fiber : Slot → FiberId
  | .ft f | .cb f => f

/-- Where a worker is. `starts` is the callback that was put into `cb_fiber` for this switch. -/
inductive Pc where
  /-- before the critical section on the queue -/
  | fetch
  | picked (work : Work)
  /-- in `swapIn`, before `m_state = EXEC` -/
  | enter (slot : Slot) (starts : Option CallbackId)
  /-- in `swapIn`, before `swapcontext` -/
  | switch (slot : Slot) (starts : Option CallbackId)
  /-- in the fiber -/
  | running (slot : Slot)
  /-- in the fiber, between the write of its state and the `swapcontext` of `swapOut` -/
  | leaving (slot : Slot)
  /-- back in `run`, before the look at the state -/
  | back (slot : Slot)
  | requeue (slot : Slot)
  | hold (slot : Slot)
  | recycle (f : FiberId)
  | idle
deriving DecidableEq, Repr

structure Worker where
  pc : Pc
  cbFiber : Option FiberId
deriving DecidableEq, Repr

structure State (n : Nat) where
  workers : Fin n → Worker
  queue : List Entry
  fibers : FiberId → Fiber
  nextFiber : FiberId
  nextCallback : CallbackId
  /-- fibers registered for a wake-up: with an event, or with a timer -/
  waiting : List FiberId
  /-- callbacks in the order they were started -/
  started : List CallbackId

def State.init (n : Nat) : State n where
  workers _ := ⟨.fetch, none⟩
  queue := []
  fibers _ := .new .null
  nextFiber := 0
  nextCallback := 0
  waiting := []
  started := []

/-- How the function of a fiber gives the worker back. -/
inductive Exit where
  | yieldToHold
  | yieldToReady
  | returned
  | threw
deriving DecidableEq, Repr

/-- The write before `swapOut`. -/
def Exit.write (e : Exit) (f : Fiber) : Fiber :=
  match e with
  | .yieldToHold => { f with state := .hold }
  | .yieldToReady => { f with state := .ready }
  | .returned => { f with state := .term, body := .null }
  | .threw => { f with state := .except }

inductive Move where
  | fetch
  | dispatch
  | enter
  | switch
  /-- the function registers its fiber for a wake-up -/
  | register
  | exit (e : Exit)
  | leave
  | look
  | requeue
  | hold
  | recycle
  | idle
deriving DecidableEq, Repr

/-- What is given to `schedule`. -/
inductive Item where
  | fiber (f : FiberId) (thread : Option Nat)
  | callback (thread : Option Nat)
deriving DecidableEq, Repr

/-- Only a fiber that was made can be scheduled. -/
def Item.known (nextFiber : FiberId) : Item → Bool
  | .fiber f _ => f < nextFiber
  | .callback _ => true

inductive Act (n : Nat) where
  | worker (w : Fin n) (m : Move)
  /-- somebody makes a fiber -/
  | newFiber
  | schedule (items : List Item)
  /-- the wake-up of a registered fiber: `triggerEvent`, or the callback of its timer -/
  | wake (f : FiberId)
deriving DecidableEq, Repr

namespace State

variable {n : Nat}

def setWorker (s : State n) (w : Fin n) (k : Worker) : State n :=
  { s with workers := Function.update s.workers w k }

def goto (s : State n) (w : Fin n) (pc : Pc) : State n := s.setWorker w { s.workers w with pc }

def setFiber (s : State n) (f : FiberId) (fb : Fiber) : State n :=
  { s with fibers := Function.update s.fibers f fb }

/-- `scheduleNoLock` of one item. -/
def push (s : State n) : Item → State n
  | .fiber f thread => { s with queue := s.queue ++ [⟨.fiber f, thread⟩] }
  | .callback thread =>
    { s with queue := s.queue ++ [⟨.callback s.nextCallback, thread⟩], nextCallback := s.nextCallback + 1 }

/-- The entry is for this worker, and is not a fiber in state `EXEC`. -/
def takeable (s : State n) (w : Fin n) (e : Entry) : Bool :=
  (e.thread = none || e.thread = some w.val) && match e.work with
    | .fiber f => (s.fibers f).state ≠ .exec
    | .callback _ => true

def fetch (s : State n) (w : Fin n) : State n :=
  match s.queue.find? (s.takeable w) with
  | some e => { s.goto w (.picked e.work) with queue := s.queue.eraseP (s.takeable w) }
  | none => s.goto w .idle

/-- The choice between the branches of `run`. A callback goes into the `cb_fiber` that is there, or into a new one. -/
def dispatch (s : State n) (w : Fin n) : Work → Option (State n)
  | .fiber f => some (if (s.fibers f).state.over then s.goto w .idle else s.goto w (.enter (.ft f) none))
  | .callback c =>
    match (s.workers w).cbFiber with
    | some f => ((s.fibers f).reset (.task c)).map fun fb => (s.setFiber f fb).goto w (.enter (.cb f) (some c))
    | none => some ({ s.setFiber s.nextFiber (.new (.task c)) with nextFiber := s.nextFiber + 1 }.setWorker w
        ⟨.enter (.cb s.nextFiber) (some c), some s.nextFiber⟩)

/-- The first half of `swapIn`, when its assertion holds. -/
def enter (s : State n) (w : Fin n) (slot : Slot) (starts : Option CallbackId) : Option (State n) :=
  let f := slot.fiber
  if (s.fibers f).state = .exec then none
  else some ((s.setFiber f { s.fibers f with state := .exec }).goto w (.switch slot starts))

/-- The `swapcontext` of `swapIn`. A context at the start of `MainFunc` calls the fiber's function. -/
def switch (s : State n) (w : Fin n) (slot : Slot) : State n :=
  let f := slot.fiber
  { (s.setFiber f { s.fibers f with fresh := false }).goto w (.running slot) with
    started := s.started ++ (s.fibers f).starts }

/-- The look at the state after `swapIn` has returned. -/
def look (s : State n) (w : Fin n) (slot : Slot) : State n :=
  let st := (s.fibers slot.fiber).state
  if st = .ready then s.goto w (.requeue slot)
  else if st.over then
    match slot with
    | .ft _ => s.goto w .fetch
    | .cb f => s.goto w (.recycle f)
  else s.goto w (.hold slot)

/-- The worker lets go of the fiber; `cb_fiber` is emptied when it was there. -/
def release (s : State n) (w : Fin n) (slot : Slot) : State n :=
  s.setWorker w ⟨.fetch, match slot with
    | .ft _ => (s.workers w).cbFiber
    | .cb _ => none⟩

def act (s : State n) (w : Fin n) : Pc → Move → Option (State n)
  | .fetch, .fetch => some (s.fetch w)
  | .picked work, .dispatch => s.dispatch w work
  | .enter slot starts, .enter => s.enter w slot starts
  | .switch slot _, .switch => some (s.switch w slot)
  | .running slot, .register => some { s with waiting := slot.fiber :: s.waiting }
  | .running slot, .exit e =>
    some ((s.setFiber slot.fiber (e.write (s.fibers slot.fiber))).goto w (.leaving slot))
  | .leaving slot, .leave => some (s.goto w (.back slot))
  | .back slot, .look => some (s.look w slot)
  | .requeue slot, .requeue => some ((s.release w slot).push (.fiber slot.fiber none))
  | .hold slot, .hold =>
    some ((s.setFiber slot.fiber { s.fibers slot.fiber with state := .hold }).release w slot)
  | .recycle f, .recycle => ((s.fibers f).reset .null).map fun fb => (s.setFiber f fb).goto w .fetch
  | .idle, .idle => some (s.goto w .fetch)
  | _, _ => none

def step (s : State n) : Act n → Option (State n)
  | .worker w m => s.act w (s.workers w).pc m
  | .newFiber => some { s.setFiber s.nextFiber (.new .own) with nextFiber := s.nextFiber + 1 }
  | .schedule items =>
    if items.all (·.known s.nextFiber) then some (items.foldl push s) else none
  | .wake f =>
    if f ∈ s.waiting then some ({ s with waiting := s.waiting.erase f }.push (.fiber f none)) else none

end State
end Scheduler
end MyHttp

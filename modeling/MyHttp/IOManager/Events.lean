import MyHttp.Scheduler

/-! The descriptors of an `IOManager`: the contexts with their registered events, what `epoll` is armed with, and the
    reports the workers are dispatching (`FdContext`, `addEvent`, `delEvent`, `cancelEvent`, `cancelAll`, and the
    dispatch loop of `idle`). One step is one body under the mutex of its context, or one `epoll_wait`. -/

namespace MyHttp
namespace IOManager

open Scheduler (Work CallbackId)

abbrev SchedulerId := Nat

inductive Event where
  | read
  | write
deriving DecidableEq, Repr

/-- A bit mask of `READ` and `WRITE`. -/
structure Events where
  read : Bool
  write : Bool
deriving DecidableEq, Repr

namespace Events

def none : Events := ⟨false, false⟩

def has (m : Events) : Event → Bool
  | .read => m.read
  | .write => m.write

def add (m : Events) : Event → Events
  | .read => { m with read := true }
  | .write => { m with write := true }

def remove (m : Events) : Event → Events
  | .read => { m with read := false }
  | .write => { m with write := false }

def inter (m k : Events) : Events := ⟨m.read && k.read, m.write && k.write⟩

def diff (m k : Events) : Events := ⟨m.read && !k.read, m.write && !k.write⟩

end Events

/-- How an event is to be handled. -/
structure EventContext where
  scheduler : Option SchedulerId
  fiber : Option FiberId
  cb : Option CallbackId
deriving DecidableEq, Repr

/-- What `resetContext` leaves. -/
def EventContext.empty : EventContext := ⟨none, none, none⟩

structure FdContext where
  read : EventContext
  write : EventContext
  fd : Nat
  events : Events
deriving DecidableEq, Repr

/-- Where the process stops, or runs on in undefined behaviour. -/
inductive Fault where
  | assertion
  | nullScheduler
  | range
deriving DecidableEq, Repr

namespace FdContext

def new (fd : Nat) : FdContext := ⟨.empty, .empty, fd, .none⟩

def getContext (ctx : FdContext) : Event → EventContext
  | .read => ctx.read
  | .write => ctx.write

def setContext (ctx : FdContext) (e : Event) (ec : EventContext) : FdContext :=
  match e with
  | .read => { ctx with read := ec }
  | .write => { ctx with write := ec }

/-- `schedule` swaps the callback, or else the fiber, out of the event's context into the scheduler's queue; an
    empty entry is not queued. -/
def triggerEvent (ctx : FdContext) (e : Event) : Except Fault (FdContext × List (SchedulerId × Work)) :=
  if ctx.events.has e then
    let ec := ctx.getContext e
    let ctx := { ctx with events := ctx.events.remove e }
    match ec.scheduler, ec.cb with
    | none, _ => .error .nullScheduler
    | some sc, some c => .ok (ctx.setContext e { ec with cb := none, scheduler := none }, [(sc, .callback c)])
    | some sc, none =>
      .ok (ctx.setContext e { ec with fiber := none, scheduler := none },
        ec.fiber.toList.map fun f => (sc, .fiber f))
  else .error .assertion

end FdContext

/-- What `epoll` knows about a descriptor. It is one-to-one with the context that is passed as `data.ptr`. -/
abbrev Epoll := Nat → Option Events

inductive CtlOp where
  | add
  | mod
  | del
deriving DecidableEq, Repr

/-- `epoll_ctl`: a descriptor is added once, and modified or deleted while it is there. -/
def epollCtl (epoll : Epoll) (op : CtlOp) (fd : Nat) (m : Events) : Option Epoll :=
  match op, epoll fd with
  | .add, none | .mod, some _ => some (Function.update epoll fd (some m))
  | .del, some _ => some (Function.update epoll fd none)
  | _, _ => none

/-- The mask of an `epoll_event`. -/
structure Mask where
  epollin : Bool
  epollout : Bool
  epollerr : Bool
  epollhup : Bool
deriving DecidableEq, Repr

/-- `real_events`. -/
def Mask.realEvents (m : Mask) : Events :=
  let m := if m.epollerr || m.epollhup then { m with epollin := true, epollout := true } else m
  ⟨m.epollin, m.epollout⟩

inductive Report where
  /-- the read end of the tickle pipe -/
  | tickle
  /-- the context with this index -/
  | ready (i : Nat) (mask : Mask)
deriving DecidableEq, Repr

/-- What the kernel may report: events that are armed, and errors and hang-ups at any time. -/
def Report.possible (epoll : Epoll) : Report → Bool
  | .tickle => true
  | .ready i mask =>
    match epoll i with
    | some m => (!mask.epollin || m.read) && (!mask.epollout || m.write)
    | none => false

structure Descriptors (n : Nat) where
  contexts : List FdContext
  epoll : Epoll
  pendingEventCount : Nat
  /-- what was scheduled by `triggerEvent`, in order -/
  scheduled : List (SchedulerId × Work)
  /-- the reports each worker has not dispatched yet -/
  reports : Fin n → List Report

inductive Call where
  /-- `caller` is the `Scheduler::GetThis()` of the calling thread, `fiber` its `Fiber::GetThis()`; `refused` when
      `epoll_ctl` fails although the operation fits -/
  | addEvent (fd : Nat) (e : Event) (caller : Option SchedulerId) (fiber : FiberId) (cb : Option CallbackId)
      (refused : Bool)
  | delEvent (fd : Nat) (e : Event)
  | cancelEvent (fd : Nat) (e : Event)
  | cancelAll (fd : Nat)
deriving DecidableEq, Repr

inductive IoAct (n : Nat) where
  | call (c : Call)
  | wait (w : Fin n) (reports : List Report)
  | dispatch (w : Fin n)
deriving DecidableEq, Repr

/-- `m_fdContexts.resize(size)`, the new places filled. -/
def contextResize (contexts : List FdContext) (size : Nat) : List FdContext :=
  contexts.take size ++ (List.range (size - contexts.length)).map fun k => .new (contexts.length + k)

namespace Descriptors

variable {n : Nat}

def init (n : Nat) : Descriptors n where
  contexts := contextResize [] 32
  epoll _ := none
  pendingEventCount := 0
  scheduled := []
  reports _ := []

def setContext (s : Descriptors n) (i : Nat) (ctx : FdContext) : Descriptors n :=
  { s with contexts := s.contexts.set i ctx }

/-- The table after the size check of `addEvent`. -/
def grow (s : Descriptors n) (fd : Nat) : Descriptors n :=
  if fd < s.contexts.length then s else { s with contexts := contextResize s.contexts (fd * 3 / 2) }

def addEvent (s : Descriptors n) (fd : Nat) (e : Event) (caller : Option SchedulerId) (fiber : FiberId)
    (cb : Option CallbackId) (refused : Bool) : Except Fault (Bool × Descriptors n) :=
  let s := s.grow fd
  match s.contexts[fd]? with
  | none => .error .range
  | some ctx =>
    if ctx.events.has e then .error .assertion
    else
      let op := if ctx.events = .none then .add else .mod
      match if refused then none else epollCtl s.epoll op fd (ctx.events.add e) with
      | none => .ok (false, s)
      | some epoll =>
        if ctx.getContext e = .empty then
          let ec : EventContext := match cb with
            | some c => ⟨caller, none, some c⟩
            | none => ⟨caller, some fiber, none⟩
          .ok (true, { s.setContext fd ({ ctx with events := ctx.events.add e }.setContext e ec) with
            epoll, pendingEventCount := s.pendingEventCount + 1 })
        else .error .assertion

def delEvent (s : Descriptors n) (fd : Nat) (e : Event) : Bool × Descriptors n :=
  match s.contexts[fd]? with
  | none => (false, s)
  | some ctx =>
    if ctx.events.has e then
      let newEvents := ctx.events.remove e
      match epollCtl s.epoll (if newEvents = .none then .del else .mod) fd newEvents with
      | none => (false, s)
      | some epoll =>
        (true, { s.setContext fd ({ ctx with events := newEvents }.setContext e .empty) with
          epoll, pendingEventCount := s.pendingEventCount - 1 })
    else (false, s)

/-- `triggerEvent` and `--m_pendingEventCount`. -/
def trigger (s : Descriptors n) (i : Nat) (e : Event) : Except Fault (Descriptors n) :=
  match s.contexts[i]? with
  | none => .error .range
  | some ctx => (ctx.triggerEvent e).map fun r =>
    { s.setContext i r.1 with
      scheduled := s.scheduled ++ r.2, pendingEventCount := s.pendingEventCount - 1 }

/-- The two `if`s at the end of `cancelAll` and of the dispatch loop. -/
def triggerAll (s : Descriptors n) (i : Nat) (m : Events) : Except Fault (Descriptors n) := do
  let s ← if m.read then s.trigger i .read else .ok s
  if m.write then s.trigger i .write else .ok s

def cancelEvent (s : Descriptors n) (fd : Nat) (e : Event) : Except Fault (Bool × Descriptors n) :=
  match s.contexts[fd]? with
  | none => .ok (false, s)
  | some ctx =>
    if ctx.events.has e then
      let newEvents := ctx.events.remove e
      match epollCtl s.epoll (if newEvents = .none then .del else .mod) fd newEvents with
      | none => .ok (false, s)
      | some epoll => ({ s with epoll }.trigger fd e).map (true, ·)
    else .ok (false, s)

def cancelAll (s : Descriptors n) (fd : Nat) : Except Fault (Bool × Descriptors n) :=
  match s.contexts[fd]? with
  | none => .ok (false, s)
  | some ctx =>
    if ctx.events = .none then .ok (false, s)
    else
      match epollCtl s.epoll .del fd .none with
      | none => .ok (false, s)
      | some epoll => ({ s with epoll }.triggerAll fd ctx.events).map (true, ·)

/-- One round of the dispatch loop. -/
def dispatch (s : Descriptors n) : Report → Except Fault (Descriptors n)
  | .tickle => .ok s
  | .ready i mask =>
    match s.contexts[i]? with
    | none => .error .range
    | some ctx =>
      let real := mask.realEvents
      if ctx.events.inter real = .none then .ok s
      else
        let left := ctx.events.diff real
        match epollCtl s.epoll (if left = .none then .del else .mod) ctx.fd left with
        | none => .ok s
        | some epoll => { s with epoll }.triggerAll i real

def call (s : Descriptors n) : Call → Except Fault (Bool × Descriptors n)
  | .addEvent fd e caller fiber cb refused => s.addEvent fd e caller fiber cb refused
  | .delEvent fd e => .ok (s.delEvent fd e)
  | .cancelEvent fd e => s.cancelEvent fd e
  | .cancelAll fd => s.cancelAll fd

/-- A fault ends the run. -/
def step (s : Descriptors n) : IoAct n → Option (Descriptors n)
  | .call c => (s.call c).toOption.map (·.2)
  | .wait w reports =>
    if s.reports w = [] ∧ reports.length ≤ 64 ∧ reports.all (·.possible s.epoll) = true then
      some { s with reports := Function.update s.reports w reports }
    else none
  | .dispatch w =>
    match s.reports w with
    | [] => none
    | r :: rest => ({ s with reports := Function.update s.reports w rest }.dispatch r).toOption

end Descriptors
end IOManager
end MyHttp

import MyHttp.IOManager.Events

/-! The table of contexts under calls from any number of threads. The size check, the growing of the table and the body
    under the mutex of the context are steps of their own, and `epoll_ctl` may fail at any time. -/

namespace MyHttp
namespace IOManager

open Scheduler (Work CallbackId)

inductive Operation where
  | addEvent (fd : Nat) (e : Event) (caller : Option SchedulerId) (fiber : FiberId) (cb : Option CallbackId)
  | delEvent (fd : Nat) (e : Event)
  | cancelEvent (fd : Nat) (e : Event)
  | cancelAll (fd : Nat)
deriving DecidableEq, Repr

def Operation.fd : Operation → Nat
  | .addEvent fd .. | .delEvent fd _ | .cancelEvent fd _ | .cancelAll fd => fd

/-- Where a thread is. -/
inductive CallPc where
  | out
  /-- the table is too small; the read lock is given back, the write lock not yet taken -/
  | resize (op : Operation)
  /-- with the pointer to a context, before its mutex is taken -/
  | body (op : Operation) (ctx : Nat)
  /-- `true` stands for the `0` of `addEvent`, `false` for its `-1` -/
  | returned (ok : Bool)
  | fault (f : Fault)
deriving DecidableEq, Repr

/-- What a body under the mutex of a context works on, and the waiters it takes in or throws away. -/
structure Body where
  ctx : FdContext
  epoll : Epoll
  pendingEventCount : Nat
  scheduled : List (SchedulerId × Work)
  added : List (Option SchedulerId × Work)
  discarded : List (Option SchedulerId × Work)

/-- `epoll_ctl`, which may fail although the operation fits. -/
def ctl (refused : Bool) (epoll : Epoll) (op : CtlOp) (fd : Nat) (m : Events) : Option Epoll :=
  if refused then none else epollCtl epoll op fd m

/-- What waits in the context of an event, also without a scheduler. -/
def EventContext.entry (ec : EventContext) : Option (Option SchedulerId × Work) :=
  match ec.cb, ec.fiber with
  | some c, _ => some (ec.scheduler, .callback c)
  | none, some f => some (ec.scheduler, .fiber f)
  | none, none => none

/-- The callback, or else the fiber that adds the event. -/
def EventContext.of (caller : Option SchedulerId) (fiber : FiberId) : Option CallbackId → EventContext
  | some c => ⟨caller, none, some c⟩
  | none => ⟨caller, some fiber, none⟩

namespace Body

def addEvent (b : Body) (fd : Nat) (e : Event) (caller : Option SchedulerId) (fiber : FiberId) (cb : Option CallbackId)
    (refused : Bool) : Except Fault (Bool × Body) :=
  if b.ctx.events.has e then .error .assertion
  else
    let op := if b.ctx.events = .none then .add else .mod
    match ctl refused b.epoll op fd (b.ctx.events.add e) with
    | none => .ok (false, b)
    | some epoll =>
      if b.ctx.getContext e = .empty then
        let ec := EventContext.of caller fiber cb
        .ok (true, { b with
          ctx := { b.ctx with events := b.ctx.events.add e }.setContext e ec
          epoll, pendingEventCount := b.pendingEventCount + 1
          added := b.added ++ ec.entry.toList })
      else .error .assertion

def delEvent (b : Body) (fd : Nat) (e : Event) (refused : Bool) : Bool × Body :=
  if b.ctx.events.has e then
    let newEvents := b.ctx.events.remove e
    match ctl refused b.epoll (if newEvents = .none then .del else .mod) fd newEvents with
    | none => (false, b)
    | some epoll =>
      (true, { b with
        ctx := { b.ctx with events := newEvents }.setContext e .empty
        epoll, pendingEventCount := b.pendingEventCount - 1
        discarded := b.discarded ++ (b.ctx.getContext e).entry.toList })
  else (false, b)

/-- `triggerEvent` and `--m_pendingEventCount`. -/
def trigger (b : Body) (e : Event) : Except Fault Body :=
  (b.ctx.triggerEvent e).map fun r =>
    { b with ctx := r.1, scheduled := b.scheduled ++ r.2, pendingEventCount := b.pendingEventCount - 1 }

def triggerAll (b : Body) (m : Events) : Except Fault Body := do
  let b ← if m.read then b.trigger .read else .ok b
  if m.write then b.trigger .write else .ok b

def cancelEvent (b : Body) (fd : Nat) (e : Event) (refused : Bool) : Except Fault (Bool × Body) :=
  if b.ctx.events.has e then
    let newEvents := b.ctx.events.remove e
    match ctl refused b.epoll (if newEvents = .none then .del else .mod) fd newEvents with
    | none => .ok (false, b)
    | some epoll => ({ b with epoll }.trigger e).map (true, ·)
  else .ok (false, b)

def cancelAll (b : Body) (fd : Nat) (refused : Bool) : Except Fault (Bool × Body) :=
  if b.ctx.events = .none then .ok (false, b)
  else
    match ctl refused b.epoll .del fd .none with
    | none => .ok (false, b)
    | some epoll => ({ b with epoll }.triggerAll b.ctx.events).map (true, ·)

/-- One round of the dispatch loop of `idle`. -/
def dispatch (b : Body) (mask : Mask) (refused : Bool) : Except Fault (Bool × Body) :=
  let real := mask.realEvents
  if b.ctx.events.inter real = .none then .ok (false, b)
  else
    let left := b.ctx.events.diff real
    match ctl refused b.epoll (if left = .none then .del else .mod) b.ctx.fd left with
    | none => .ok (false, b)
    | some epoll => ({ b with epoll }.triggerAll real).map (true, ·)

def run (b : Body) (refused : Bool) : Operation → Except Fault (Bool × Body)
  | .addEvent fd e caller fiber cb => b.addEvent fd e caller fiber cb refused
  | .delEvent fd e => .ok (b.delEvent fd e refused)
  | .cancelEvent fd e => b.cancelEvent fd e refused
  | .cancelAll fd => b.cancelAll fd refused

end Body

structure FdTable where
  /-- `m_fdContexts`: the pointers -/
  contexts : List Nat
  /-- the contexts that were allocated; a pointer is an index -/
  objects : List FdContext
  epoll : Epoll
  pendingEventCount : Nat
  /-- what was scheduled by `triggerEvent`, in order -/
  scheduled : List (SchedulerId × Work)
  /-- the waiters of the calls of `addEvent` that succeeded, in order -/
  added : List (Option SchedulerId × Work)
  /-- the waiters that `delEvent` threw away, in order -/
  discarded : List (Option SchedulerId × Work)
  threads : Nat → CallPc

inductive TableAct where
  /-- a thread begins a call: the read lock and the size check -/
  | call (t : Nat) (op : Operation)
  /-- the write lock -/
  | grow (t : Nat)
  /-- the mutex of the context -/
  | body (t : Nat) (refused : Bool)
  /-- a worker dispatches a report about a context -/
  | dispatch (t : Nat) (ctx : Nat) (mask : Mask) (refused : Bool)
deriving DecidableEq, Repr

def TableAct.thread : TableAct → Nat
  | .call t _ | .grow t | .body t _ | .dispatch t _ _ _ => t

namespace FdTable

/-- `m_fdContexts.resize(size)`, the new places filled with new contexts. -/
def contextResize (s : FdTable) (size : Nat) : FdTable :=
  let missing := List.range (size - s.contexts.length)
  { s with
    contexts := s.contexts.take size ++ missing.map (s.objects.length + ·)
    objects := s.objects ++ missing.map fun k => .new (s.contexts.length + k) }

def init : FdTable := contextResize ⟨[], [], fun _ => none, 0, [], [], [], fun _ => .out⟩ 32

def setThread (s : FdTable) (t : Nat) (pc : CallPc) : FdTable := { s with threads := Function.update s.threads t pc }

def toBody (s : FdTable) (ctx : FdContext) : Body :=
  ⟨ctx, s.epoll, s.pendingEventCount, s.scheduled, s.added, s.discarded⟩

def setBody (s : FdTable) (o : Nat) (b : Body) : FdTable :=
  { s with
    objects := s.objects.set o b.ctx
    epoll := b.epoll
    pendingEventCount := b.pendingEventCount
    scheduled := b.scheduled
    added := b.added
    discarded := b.discarded }

/-- `m_fdContexts[fd]`. -/
def access (s : FdTable) (t : Nat) (op : Operation) : FdTable :=
  match s.contexts[op.fd]? with
  | some o => s.setThread t (.body op o)
  | none => s.setThread t (.fault .range)

/-- What a body has done to the context, or where it stopped. -/
def finish (s : FdTable) (t o : Nat) : Except Fault (Bool × Body) → FdTable
  | .ok (ok, b) => (s.setBody o b).setThread t (.returned ok)
  | .error f => s.setThread t (.fault f)

def call (s : FdTable) (t : Nat) (op : Operation) : FdTable :=
  if s.contexts.length > op.fd then s.access t op
  else
    match op with
    | .addEvent .. => s.setThread t (.resize op)
    | _ => s.setThread t (.returned false)

def idleThread : CallPc → Bool
  | .out | .returned _ => true
  | _ => false

def step (s : FdTable) : TableAct → Option FdTable
  | .call t op => if idleThread (s.threads t) then some (s.call t op) else none
  | .grow t =>
    match s.threads t with
    | .resize op => some ((s.contextResize (op.fd * 3 / 2)).access t op)
    | _ => none
  | .body t refused =>
    match s.threads t with
    | .body op o => s.objects[o]?.map fun ctx => s.finish t o ((s.toBody ctx).run refused op)
    | _ => none
  | .dispatch t o mask refused =>
    if idleThread (s.threads t) then
      s.objects[o]?.map fun ctx => s.finish t o ((s.toBody ctx).dispatch mask refused)
    else none

end FdTable
end IOManager
end MyHttp

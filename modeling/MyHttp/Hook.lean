import MyHttp.FdManager
import MyHttp.TimerObjects
import MyHttp.IOManager.Events

/-! The loop of `do_io` (`hook.cpp`) in fibers that share descriptors, with the workers that run expired timers and
    dispatch reports. Each step is one operation on the event table, on the timer set, on `timer_info`, or one system
    call. -/

namespace MyHttp

open IOManager (Event Descriptors Report SchedulerId)
open Scheduler (Work)
open Lib.Machine

namespace Hook

/-- The callback of a conditional timer: what its closure holds. -/
structure IoTimer where
  /-- `winfo` -/
  info : Nat
  fd : Nat
  event : Event
deriving DecidableEq, Repr

structure TimerInfo where
  /-- `ETIMEDOUT` and not `0` -/
  cancelled : Bool
  /-- the call that made it has not returned -/
  held : Bool
deriving DecidableEq, Repr

/-- Where a call is in the loop. -/
inductive IoPc where
  /-- at `retry`, or in the `while` behind it: the system call comes next -/
  | syscall
  /-- the system call has failed with `EAGAIN` -/
  | arm
  /-- the timer is added when there is one; `addEvent` comes next -/
  | armed
  /-- the event is added; `YieldToHold` comes next -/
  | registered
  | parked
  /-- switched in again; `timer->cancel()` comes next -/
  | resumed
  /-- `tinfo->cancelled` is looked at next -/
  | check
deriving DecidableEq, Repr

structure IoCall where
  fd : Nat
  event : Event
  /-- the system call is `accept_f` -/
  accept : Bool
  timeout : Nat
  /-- `tinfo` -/
  info : Nat
  timer : Option Nat
  pc : IoPc
  /-- `close` has been executed on the descriptor since the call began -/
  closed : Bool
deriving DecidableEq, Repr

def IoCall.callback (c : IoCall) : IoTimer := ⟨c.info, c.fd, c.event⟩

/-- What a fiber is doing. -/
inductive Task where
  | idle
  /-- in `do_io`, and about to make the system call outside of the loop -/
  | direct (fd : Nat) (accept closed : Bool)
  | io (c : IoCall)
  /-- `accept` has a new descriptor and asks for its context next -/
  | accepted (fd : Nat)
  /-- in `close`, past `cancelAll` -/
  | closing (fd : Nat)
  /-- `none` is `-1`; whether the descriptor was closed while `do_io` ran -/
  | returned (n : Option Nat) (closed : Bool)
deriving DecidableEq, Repr

def Task.free : Task → Bool
  | .idle | .returned _ _ => true
  | _ => false

/-- What a system call gives. -/
inductive SysResult where
  | done (n : Nat)
  | accepted (fd : Nat) (flags : Flags)
  | eintr
  | eagain
  | failed
deriving DecidableEq, Repr

/-- A pointer to the timer at this address. -/
def Task.holds (addr : Nat) : Task → Bool
  | .io c => c.timer = some addr
  | _ => false

/-- A call that is in `do_io` on a descriptor while it is closed. -/
def Task.close (fd : Nat) : Task → Task
  | .direct fd' accept closed => .direct fd' accept (closed || fd' = fd)
  | .io c => .io { c with closed := c.closed || c.fd = fd }
  | t => t

end Hook

open Hook in
/-- `m` fibers and `n` workers. -/
structure Hook (m n : Nat) where
  fds : FdManager
  events : Descriptors n
  timers : TimerObjects IoTimer
  infos : List TimerInfo
  /-- callbacks of expired timers that wait for a worker -/
  queued : List IoTimer
  /-- callbacks that have set `cancelled` and make their `cancelEvent` next -/
  running : List IoTimer
  tasks : Fin m → Task

namespace Hook

inductive Act (m n : Nat) where
  | doIo (f : Fin m) (fd : Nat) (event : Event) (accept : Bool)
  | issue (f : Fin m) (r : SysResult)
  /-- with the address of the timer and the clock -/
  | arm (f : Fin m) (addr now : Nat)
  /-- `refused` when `epoll_ctl` fails -/
  | addEvent (f : Fin m) (refused : Bool)
  | yield (f : Fin m)
  | resume (f : Fin m)
  | cancelTimer (f : Fin m)
  | check (f : Fin m)
  /-- `get(fd, true)` in `accept` -/
  | context (f : Fin m)
  | close (f : Fin m) (fd : Nat) (refused : Bool)
  | closeFd (f : Fin m)
  /-- `socket`, `setsockopt`, `fcntl` or `ioctl` in any fiber -/
  | onFd (a : FdAct)
  /-- `listExpiredCb` in a worker -/
  | expire (probe now : Nat)
  /-- a worker begins the callback at this place of the queue -/
  | fire (j : Nat)
  | cancelEvent (j : Nat) (refused : Bool)
  | wait (w : Fin n) (reports : List Report)
  | dispatch (w : Fin n)
deriving DecidableEq, Repr

variable {m n : Nat}

def init (files : Nat → Option File) (now : Nat) : Hook m n :=
  ⟨.init files, .init n, .new now, [], [], [], fun _ => .idle⟩

def setTask (s : Hook m n) (f : Fin m) (t : Task) : Hook m n := { s with tasks := Function.update s.tasks f t }

/-- `event` and `timeout_so` go together. -/
def timeoutType : Event → TimeoutType
  | .read => .recv
  | .write => .send

def doIo (s : Hook m n) (f : Fin m) (fd : Nat) (event : Event) (accept : Bool) : Hook m n :=
  match s.fds.doIo true fd (timeoutType event) with
  | .direct => s.setTask f (.direct fd accept false)
  | .closed => s.setTask f (.returned none false)
  | .hooked timeout =>
    let info : TimerInfo := ⟨false, true⟩
    { s with infos := s.infos ++ [info] }.setTask f
      (.io ⟨fd, event, accept, timeout, s.infos.length, none, .syscall, false⟩)

/-- `tinfo` is given up. -/
def drop (s : Hook m n) (k : Nat) : Hook m n :=
  { s with infos := s.infos.modify k fun i => { i with held := false } }

/-- What a system call on a descriptor may give: the kernel hands out numbers that are not open, and a number that
    is not open gives nothing but failure. -/
def possible (s : Hook m n) (fd : Nat) (accept : Bool) : SysResult → Bool
  | .done _ => (s.fds.files fd).isSome && !accept
  | .accepted fd' _ => (s.fds.files fd).isSome && accept && (s.fds.files fd').isNone
  | .eagain => (s.fds.files fd).isSome
  | .eintr | .failed => true

/-- `do_io` returns what the system call gave; an accepted descriptor is open in the kernel. -/
def finish (s : Hook m n) (f : Fin m) (closed : Bool) : SysResult → Hook m n
  | .done k => s.setTask f (.returned (some k) closed)
  | .accepted fd flags =>
    { s with fds := { s.fds with files := Function.update s.fds.files fd (some ⟨true, flags⟩) } }.setTask f (.accepted fd)
  | _ => s.setTask f (.returned none closed)

def issue (s : Hook m n) (f : Fin m) (r : SysResult) : Option (Hook m n) :=
  match s.tasks f with
  | .direct fd accept closed => if s.possible fd accept r then some (s.finish f closed r) else none
  | .io c =>
    if c.pc = .syscall ∧ s.possible c.fd c.accept r then
      match r with
      | .eintr => some s
      | .eagain => some (s.setTask f (.io { c with pc := .arm }))
      | _ => some ((s.drop c.info).finish f c.closed r)
    else none
  | _ => none

/-- No live timer is at the address, and no call has a pointer to it. -/
def unused (s : Hook m n) (addr : Nat) : Bool :=
  (s.timers.object addr).cb.isNone && decide (∀ f, (s.tasks f).holds addr = false)

def arm (s : Hook m n) (f : Fin m) (addr now : Nat) : Option (Hook m n) :=
  match s.tasks f with
  | .io c =>
    if c.pc = .arm then
      if c.timeout ≠ maxUint64 then
        if s.unused addr then
          some ({ s with timers := (s.timers.addTimer addr now c.timeout (some c.callback) false).2 }.setTask f
            (.io { c with pc := .armed, timer := some addr }))
        else none
      else some (s.setTask f (.io { c with pc := .armed, timer := none }))
    else none
  | _ => none

/-- `if(timer) timer->cancel()`. -/
def cancelTimers (timers : TimerObjects IoTimer) : Option Nat → Option (TimerObjects IoTimer)
  | none => some timers
  | some addr => (timers.cancel addr).map (·.2)

/-- `epoll_ctl` does not take a number that is not open. -/
def addEvent (s : Hook m n) (f : Fin m) (refused : Bool) : Option (Hook m n) :=
  match s.tasks f with
  | .io c =>
    if c.pc = .armed then
      match s.events.addEvent c.fd c.event (some 0) f.val none (refused || (s.fds.files c.fd).isNone) with
      | .ok (true, events) => some ({ s with events }.setTask f (.io { c with pc := .registered }))
      | .ok (false, events) => (cancelTimers s.timers c.timer).map fun timers =>
        ({ s with events, timers }.drop c.info).setTask f (.returned none c.closed)
      | .error _ => none
    else none
  | _ => none

def yield (s : Hook m n) (f : Fin m) : Option (Hook m n) :=
  match s.tasks f with
  | .io c => if c.pc = .registered then some (s.setTask f (.io { c with pc := .parked })) else none
  | _ => none

/-- What the queue of the scheduler holds for a fiber. -/
def entry (f : Fin m) : SchedulerId × Work := (0, .fiber f.val)

/-- The scheduler switches to the fiber. -/
def resume (s : Hook m n) (f : Fin m) : Option (Hook m n) :=
  match s.tasks f with
  | .io c =>
    if c.pc = .parked ∧ entry f ∈ s.events.scheduled then
      some ({ s with events := { s.events with scheduled := s.events.scheduled.erase (entry f) } }.setTask f
        (.io { c with pc := .resumed }))
    else none
  | _ => none

def cancelTimer (s : Hook m n) (f : Fin m) : Option (Hook m n) :=
  match s.tasks f with
  | .io c =>
    if c.pc = .resumed then (cancelTimers s.timers c.timer).map fun timers =>
      { s with timers }.setTask f (.io { c with pc := .check, timer := none })
    else none
  | _ => none

def check (s : Hook m n) (f : Fin m) : Option (Hook m n) :=
  match s.tasks f with
  | .io c =>
    if c.pc = .check then
      if s.infos[c.info]?.any (·.cancelled) then some ((s.drop c.info).setTask f (.returned none c.closed))
      else some (s.setTask f (.io { c with pc := .syscall }))
    else none
  | _ => none

def context (s : Hook m n) (f : Fin m) : Option (Hook m n) :=
  match s.tasks f with
  | .accepted fd => some ({ s with fds := s.fds.getCreate fd }.setTask f (.returned (some fd) false))
  | _ => none

def close (s : Hook m n) (f : Fin m) (fd : Nat) (refused : Bool) : Option (Hook m n) :=
  if (s.tasks f).free then
    if (s.fds.get fd).isSome ∧ refused = false then
      (s.events.cancelAll fd).toOption.map fun r => { s with events := r.2 }.setTask f (.closing fd)
    else some (s.setTask f (.closing fd))
  else none

/-- `del` and `close_f`; the kernel takes the number out of `epoll`. -/
def closeFd (s : Hook m n) (f : Fin m) : Option (Hook m n) :=
  match s.tasks f with
  | .closing fd =>
    some { s with
      fds := s.fds.close fd
      events := { s.events with epoll := Function.update s.events.epoll fd none }
      tasks := Function.update (fun g => Task.close fd (s.tasks g)) f (.returned (some 0) false) }
  | _ => none

def onFd (s : Hook m n) : FdAct → Option (Hook m n)
  | .close _ | .accept _ => none
  | a => (s.fds.step a).map fun fds => { s with fds }

def expire (s : Hook m n) (probe now : Nat) : Option (Hook m n) :=
  if s.unused probe then
    let (cbs, timers) := s.timers.listExpiredCb probe now
    some { s with timers, queued := s.queued ++ cbs.filterMap id }
  else none

/-- The callback looks whether the call has returned or has timed out before, and marks it as timed out. -/
def fire (s : Hook m n) (j : Nat) : Option (Hook m n) :=
  s.queued[j]?.map fun cb =>
    let s := { s with queued := s.queued.eraseIdx j }
    if s.infos[cb.info]?.any fun i => i.held && !i.cancelled then
      { s with
        infos := s.infos.modify cb.info fun i => { i with cancelled := true }
        running := s.running ++ [cb] }
    else s

def cancelEvent (s : Hook m n) (j : Nat) (refused : Bool) : Option (Hook m n) :=
  s.running[j]?.bind fun cb =>
    let s := { s with running := s.running.eraseIdx j }
    if refused then some s else (s.events.cancelEvent cb.fd cb.event).toOption.map fun r => { s with events := r.2 }

def step (s : Hook m n) : Act m n → Option (Hook m n)
  | .doIo f fd event accept => if (s.tasks f).free then some (s.doIo f fd event accept) else none
  | .issue f r => s.issue f r
  | .arm f addr now => s.arm f addr now
  | .addEvent f refused => s.addEvent f refused
  | .yield f => s.yield f
  | .resume f => s.resume f
  | .cancelTimer f => s.cancelTimer f
  | .check f => s.check f
  | .context f => s.context f
  | .close f fd refused => s.close f fd refused
  | .closeFd f => s.closeFd f
  | .onFd a => s.onFd a
  | .expire probe now => s.expire probe now
  | .fire j => s.fire j
  | .cancelEvent j refused => s.cancelEvent j refused
  | .wait w reports => (s.events.step (.wait w reports)).map fun events => { s with events }
  | .dispatch w => (s.events.step (.dispatch w)).map fun events => { s with events }

end Hook
end MyHttp

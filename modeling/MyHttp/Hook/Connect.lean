import MyHttp.Hook

/-! `connect_with_timeout` (`hook.cpp`) in fibers that share descriptors with those in `do_io`. Behind `connect_f` it takes the same steps
    as the loop of `do_io`, but for the ends: it does not try again, and it asks for `SO_ERROR` also when the event could not be added. -/

namespace MyHttp

open Lib.Machine

/-- What the kernel knows of a socket. -/
inductive Peer where
  | unconnected
  | connecting
  | connected
  /-- with the error that `SO_ERROR` gives once -/
  | refused (error : Nat)
deriving DecidableEq, Repr

/-- What `connect_f` gives. -/
inductive ConnectResult where
  | connected
  /-- `EINPROGRESS` -/
  | inProgress
  | failed
deriving DecidableEq, Repr

inductive ConnectAnswer where
  | ok
  | timedOut
  | error (error : Nat)
  | failed
deriving DecidableEq, Repr

/-- How a call of `connect` has ended: what it returned, the socket at that time, and whether it was disturbed. -/
structure Connected where
  answer : ConnectAnswer
  peer : Peer
  disturbed : Bool
deriving DecidableEq, Repr

structure Connects (m n : Nat) where
  hook : Hook m n
  /-- the sockets of the kernel -/
  peers : Nat → Peer
  /-- whether a fiber is in `connect_with_timeout`, behind `connect_f` -/
  connecting : Fin m → Bool
  /-- whether something has disturbed it there -/
  disturbed : Fin m → Bool
  answers : Fin m → Option Connected

namespace Connects

open Hook

variable {m n : Nat}

inductive Act (m n : Nat) where
  /-- a step of `Hook`, also one that `connect_with_timeout` takes like `do_io` -/
  | hook (a : Hook.Act m n)
  | connect (f : Fin m) (fd timeout : Nat) (r : ConnectResult)
  /-- `addEvent` in `connect_with_timeout`; `refused` when `epoll_ctl` fails -/
  | addEvent (f : Fin m) (refused : Bool)
  /-- the look at `tinfo->cancelled` in `connect_with_timeout` -/
  | check (f : Fin m)
  | getsockopt (f : Fin m)
  /-- a connection is made or refused, or one that was made is reset -/
  | settle (fd : Nat) (error : Option Nat)
  /-- another system call takes the error of the socket -/
  | taken (fd : Nat)
deriving DecidableEq, Repr

def init (files : Nat → Option File) (now : Nat) : Connects m n :=
  ⟨.init files now, fun _ => .unconnected, fun _ => false, fun _ => false, fun _ => none⟩

/-- The descriptor on which a fiber is in `connect_with_timeout`. -/
def target (x : Connects m n) (f : Fin m) : Option Nat :=
  match x.connecting f, x.hook.tasks f with
  | true, .io c => some c.fd
  | _, _ => none

/-- Something that is done to the descriptor on which a fiber connects, or to its event: another `connect`, a `close`, a callback of
    another call, a report from before, and a call that takes the error away. -/
def disturbs (x : Connects m n) (f : Fin m) : Act m n → Bool
  | .connect _ fd _ _ | .taken fd | .hook (.close _ fd _) => x.target f = some fd
  | .hook (.closeFd g) =>
    match x.hook.tasks g with
    | .closing fd => x.target f = some fd
    | _ => false
  | .hook (.cancelEvent j _) =>
    match x.hook.running[j]?, x.hook.tasks f with
    | some cb, .io c => x.target f = some cb.fd && cb.info ≠ c.info
    | _, _ => false
  | .hook (.dispatch w) =>
    match x.hook.events.reports w with
    | .ready i _ :: _ => x.target f = some i && x.peers i = .connecting
    | _ => false
  | _ => false

/-- The fiber has its answer. -/
def answered (x : Connects m n) (f : Fin m) (answer : ConnectAnswer) (peer : Peer) : Connects m n :=
  { x with
    connecting := Function.update x.connecting f false
    answers := Function.update x.answers f (some ⟨answer, peer, x.disturbed f⟩) }

def setPeer (x : Connects m n) (fd : Nat) (peer : Peer) : Connects m n := { x with peers := Function.update x.peers fd peer }

/-- The steps that `connect_with_timeout` does not take like `do_io`. -/
def own (x : Connects m n) : Hook.Act m n → Bool
  | .issue f _ | .addEvent f _ | .check f => x.connecting f
  | _ => false

/-- New descriptors are those of new sockets, or of accepted connections. -/
def peersAfter (peers : Nat → Peer) : Hook.Act m n → Nat → Peer
  | .onFd (.socket (some (fd, _))) => Function.update peers fd .unconnected
  | .issue _ (.accepted fd _) => Function.update peers fd .connected
  | _ => peers

/-- What the kernel may answer to `connect_f`. -/
def possible (x : Connects m n) (fd : Nat) : ConnectResult → Bool
  | .failed => true
  | _ => (x.hook.fds.files fd).isSome && x.peers fd = .unconnected

def returned (x : Connects m n) (f : Fin m) (r : Option Nat) : Connects m n :=
  { x with hook := x.hook.setTask f (.returned r false) }

def connect (x : Connects m n) (f : Fin m) (fd timeout : Nat) (r : ConnectResult) : Connects m n :=
  match x.hook.fds.getCtx fd with
  | none => x.returned f none
  | some ctx =>
    if ctx.isClosed then x.returned f none
    else
      match r with
      | .connected => ((x.setPeer fd .connected).returned f (some 0)).answered f .ok .connected
      | .failed => (x.returned f none).answered f .failed (x.peers fd)
      | .inProgress =>
        if !ctx.isSocket || ctx.userNonblock then (x.setPeer fd .connecting).returned f none
        else
          let info : TimerInfo := ⟨false, true⟩
          { x.setPeer fd .connecting with
            hook := { x.hook with infos := x.hook.infos ++ [info] }.setTask f
              (.io ⟨fd, .write, false, timeout, x.hook.infos.length, none, .arm, false⟩)
            connecting := Function.update x.connecting f true
            disturbed := Function.update x.disturbed f (decide (∃ g, g ≠ f ∧ x.target g = some fd)) }

/-- The event could not be added: `getsockopt` comes next. -/
def addEvent (x : Connects m n) (f : Fin m) (refused : Bool) : Option (Connects m n) :=
  match x.hook.tasks f with
  | .io c =>
    if c.pc = .armed then
      match x.hook.events.addEvent c.fd c.event (some 0) f.val none (refused || (x.hook.fds.files c.fd).isNone) with
      | .ok (true, events) => some { x with hook := { x.hook with events }.setTask f (.io { c with pc := .registered }) }
      | .ok (false, events) => (cancelTimers x.hook.timers c.timer).map fun timers =>
        { x with
          hook := { x.hook with events, timers }.setTask f (.io { c with pc := .syscall, timer := none })
          disturbed := Function.update x.disturbed f true }
      | .error _ => none
    else none
  | _ => none

def check (x : Connects m n) (f : Fin m) : Option (Connects m n) :=
  match x.hook.tasks f with
  | .io c => (x.hook.check f).map fun hook =>
    if x.hook.infos[c.info]?.any (·.cancelled) then { x with hook }.answered f .timedOut (x.peers c.fd) else { x with hook }
  | _ => none

def getsockopt (x : Connects m n) (f : Fin m) : Option (Connects m n) :=
  match x.hook.tasks f with
  | .io c =>
    if c.pc = .syscall then
      if (x.hook.fds.files c.fd).isNone then
        some ({ x with hook := (x.hook.drop c.info).setTask f (.returned none c.closed) }.answered f .failed (x.peers c.fd))
      else
        match x.peers c.fd with
        | .refused e =>
          some ({ x.setPeer c.fd .unconnected with
            hook := (x.hook.drop c.info).setTask f (.returned none c.closed) }.answered f (.error e) (x.peers c.fd))
        | _ => some ({ x with hook := (x.hook.drop c.info).setTask f (.returned (some 0) c.closed) }.answered f .ok (x.peers c.fd))
    else none
  | _ => none

def settle (x : Connects m n) (fd : Nat) (error : Option Nat) : Option (Connects m n) :=
  match x.peers fd, error with
  | .connecting, none => some (x.setPeer fd .connected)
  | .connecting, some e | .connected, some e => some (x.setPeer fd (.refused e))
  | _, _ => none

def taken (x : Connects m n) (fd : Nat) : Option (Connects m n) :=
  match x.peers fd with
  | .refused _ => some (x.setPeer fd .unconnected)
  | _ => none

/-- The step itself. -/
def move (x : Connects m n) : Act m n → Option (Connects m n)
  | .hook a => if x.own a then none else (x.hook.step a).map fun hook => { x with hook, peers := peersAfter x.peers a }
  | .connect f fd timeout r =>
    if (x.hook.tasks f).free && x.possible fd r then some (x.connect f fd timeout r) else none
  | .addEvent f refused => if x.connecting f then x.addEvent f refused else none
  | .check f => if x.connecting f then x.check f else none
  | .getsockopt f => if x.connecting f then x.getsockopt f else none
  | .settle fd error => x.settle fd error
  | .taken fd => x.taken fd

/-- A step, with a note of whom it disturbs. -/
def step (x : Connects m n) (a : Act m n) : Option (Connects m n) :=
  { x with disturbed := fun f => x.disturbed f || x.disturbs f a }.move a

end Connects
end MyHttp

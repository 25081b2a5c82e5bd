import MyHttp.TcpServer
import Mathlib.Logic.Function.Basic

/-! `TcpServer::start`, `stop` and `startAccept` (`tcp_server.cpp`), with the workers that run the tasks of `m_acceptWorker`
    and the connections that arrive at the listening sockets. -/

namespace MyHttp
namespace TcpServer

/-- Where a run of `startAccept` is. -/
inductive LoopPc where
  /-- before the look at `m_isStop` -/
  | check
  /-- in `sock->accept()` -/
  | accept
  /-- with a client that has its timeout set and is scheduled next -/
  | client (c : Nat)
  | finished
deriving DecidableEq, Repr

structure AcceptLoop where
  sock : Nat
  pc : LoopPc
deriving DecidableEq, Repr

/-- What is scheduled on `m_acceptWorker`. -/
inductive AcceptTask where
  | startAccept (sock : Nat)
  /-- the closure of `stop` -/
  | closeAll
deriving DecidableEq, Repr

/-- What `Socket::accept` makes of a call of `::accept`. -/
inductive AcceptResult where
  | client
  /-- the new descriptor has no context, and the connection is forgotten -/
  | unusable
  /-- `-1` -/
  | error
deriving DecidableEq, Repr

/-- The server and the kernel: `m_socks` by the addresses of the sockets, which of these are open, the connections that wait
    at them, and of the closures that run the sockets that are still to close. -/
structure Running where
  isStop : Bool
  socks : List Nat
  isOpen : Nat → Bool
  backlog : Nat → List Nat
  tasks : List AcceptTask
  loops : List AcceptLoop
  closers : List (List Nat)
  /-- the clients that `accept` gave, and those that were scheduled on `m_worker` -/
  accepted : List Nat
  handled : List Nat

namespace Running

inductive Act where
  | start
  | stop
  /-- a worker begins a task -/
  | begin (j : Nat)
  /-- a loop goes on outside of `accept` -/
  | loop (i : Nat)
  | accept (i : Nat) (r : AcceptResult)
  /-- a closure goes on -/
  | close (j : Nat)
  | arrive (sock c : Nat)
deriving DecidableEq, Repr

/-- After `bind`. -/
def init (socks : List Nat) : Running := ⟨true, socks, fun sock => decide (sock ∈ socks), fun _ => [], [], [], [], [], []⟩

def start (s : Running) : Running :=
  if s.isStop then { s with isStop := false, tasks := s.tasks ++ s.socks.map .startAccept } else s

def stop (s : Running) : Running := { s with isStop := true, tasks := s.tasks ++ [.closeAll] }

def begin (s : Running) (j : Nat) : AcceptTask → Running
  | .startAccept sock => { s with tasks := s.tasks.eraseIdx j, loops := s.loops ++ [⟨sock, .check⟩] }
  | .closeAll => { s with tasks := s.tasks.eraseIdx j, closers := s.closers ++ [s.socks] }

def goto (s : Running) (i : Nat) (pc : LoopPc) : Running := { s with loops := s.loops.modify i fun l => { l with pc } }

def loop (s : Running) (i : Nat) : LoopPc → Option Running
  | .check => some (s.goto i (if s.isStop then .finished else .accept))
  | .client c => some ({ s with handled := s.handled ++ [c] }.goto i .check)
  | .accept | .finished => none

/-- A socket that is closed has no connections, and `::accept` fails on it. -/
def accept (s : Running) (i : Nat) (l : AcceptLoop) (r : AcceptResult) : Option Running :=
  if l.pc = .accept then
    match r, s.backlog l.sock with
    | .error, _ => some (s.goto i .check)
    | .client, c :: rest =>
      some ({ s with backlog := Function.update s.backlog l.sock rest, accepted := s.accepted ++ [c] }.goto i (.client c))
    | .unusable, _ :: rest => some ({ s with backlog := Function.update s.backlog l.sock rest }.goto i .check)
    | _, [] => none
  else none

/-- The next socket is cancelled and closed; behind the last one `m_socks` is cleared. -/
def close (s : Running) (j : Nat) : List Nat → Running
  | sock :: rest =>
    { s with
      isOpen := Function.update s.isOpen sock false
      backlog := Function.update s.backlog sock []
      closers := s.closers.set j rest }
  | [] => { s with socks := [], closers := s.closers.eraseIdx j }

def step (s : Running) : Act → Option Running
  | .start => some s.start
  | .stop => some s.stop
  | .begin j => s.tasks[j]?.map (s.begin j)
  | .loop i => s.loops[i]?.bind fun l => s.loop i l.pc
  | .accept i r => s.loops[i]?.bind fun l => s.accept i l r
  | .close j => s.closers[j]?.map (s.close j)
  | .arrive sock c =>
    if s.isOpen sock then some { s with backlog := Function.update s.backlog sock (s.backlog sock ++ [c]) } else none

end Running
end TcpServer
end MyHttp

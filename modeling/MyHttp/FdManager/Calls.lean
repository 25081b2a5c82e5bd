import MyHttp.FdManager

/-! The calls of `FdManager` with the pointers that they return (`fd_manager.cpp`): one after another, and `get(fd, true)`
    from any number of threads, where the lookup under the read lock and the creation under the write lock are two
    steps. -/

namespace MyHttp
namespace FdManager

/-- What `get(fd, true)` does under the write lock. It does not look whether there is a context by now. -/
def create (s : FdManager) (fd : Nat) : FdManager :=
  let (ctx, files) := FdCtx.init fd s.files
  { datas := s.datas.set fd (some s.objects.length)
    objects := s.objects ++ [ctx]
    files
    overrun := s.overrun || s.datas.length ≤ fd }

inductive FdCall where
  | get (fd : Nat) (autoCreate : Bool)
  | del (fd : Nat)
deriving DecidableEq, Repr

/-- The descriptor of a call. -/
def FdCall.fd : FdCall → Nat
  | .get fd _ => fd
  | .del fd => fd

/-- The pointer that is returned, and the places of `m_datas` that the call has touched. -/
structure FdReply where
  ptr : Option Nat
  touched : List Nat
deriving DecidableEq, Repr

def call (s : FdManager) : FdCall → FdReply × FdManager
  | .get fd autoCreate =>
    if s.datas.length ≤ fd then
      if autoCreate = false then (⟨none, []⟩, s) else (⟨some s.objects.length, [fd]⟩, s.create fd)
    else if (s.get fd).isSome ∨ autoCreate = false then (⟨s.get fd, [fd]⟩, s)
    else (⟨some s.objects.length, [fd, fd]⟩, s.create fd)
  | .del fd => (⟨none, []⟩, s.del fd)

/-- The manager after some calls. -/
def after (s : FdManager) (calls : List FdCall) : FdManager := calls.foldl (fun s c => (s.call c).2) s

/-- What a call replies when others have come before it. -/
def reply (s : FdManager) (before : List FdCall) (c : FdCall) : FdReply := ((s.after before).call c).1

end FdManager

/-- Where a thread is in `get(fd, true)`. -/
inductive GetPc where
  | out
  /-- between the locks: there was no context -/
  | missed
deriving DecidableEq, Repr

/-- Threads that share the manager, and the pointers that their calls have returned. -/
structure FdThreads (n : Nat) where
  manager : FdManager
  threads : Fin n → GetPc
  returned : List Nat

namespace FdThreads

variable {n : Nat}

def start (n : Nat) (manager : FdManager) : FdThreads n := ⟨manager, fun _ => .out, []⟩

inductive Act (n : Nat) where
  | lookup (i : Fin n)
  | create (i : Fin n)
  /-- through a pointer that a call has returned -/
  | setTimeout (p : Nat) (type : TimeoutType) (v : Nat)
  | setUserNonblock (p : Nat) (v : Bool)
deriving DecidableEq, Repr

def goto (s : FdThreads n) (i : Fin n) (pc : GetPc) : FdThreads n :=
  { s with threads := Function.update s.threads i pc }

/-- The call of a thread returns a pointer. -/
def finish (s : FdThreads n) (i : Fin n) (p : Nat) : FdThreads n :=
  { s.goto i .out with returned := s.returned ++ [p] }

def modify (s : FdThreads n) (p : Nat) (f : FdCtx → FdCtx) : FdThreads n :=
  { s with manager := { s.manager with objects := s.manager.objects.modify p f } }

/-- `fd` is the descriptor that all threads ask for. -/
def step (fd : Nat) (s : FdThreads n) : Act n → Option (FdThreads n)
  | .lookup i =>
    if s.threads i = .out then
      match s.manager.get fd with
      | some p => some (s.finish i p)
      | none => some (s.goto i .missed)
    else none
  | .create i =>
    if s.threads i = .missed then
      some ({ s with manager := s.manager.create fd }.finish i s.manager.objects.length)
    else none
  | .setTimeout p type v => if p ∈ s.returned then some (s.modify p (·.setTimeout type v)) else none
  | .setUserNonblock p v => if p ∈ s.returned then some (s.modify p fun ctx => { ctx with userNonblock := v }) else none

end FdThreads
end MyHttp

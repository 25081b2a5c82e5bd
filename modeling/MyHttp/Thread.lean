import MyHttp.Lib.CString
import Mathlib.Logic.Function.Basic

/-! `Thread` (`thread.cpp`): one thread that makes, joins and destroys objects of the class, and the threads that run
    `Thread::run` for them. Every use of an object and of its semaphore is a step of its own. -/

namespace MyHttp

open Lib.CString

/-- What a thread does next in `Thread::run`. -/
inductive RunPc where
  /-- `t_thread` and `t_thread_name` -/
  | adopt
  /-- `m_id` -/
  | identify
  /-- `pthread_setname_np` -/
  | label
  /-- `cb.swap(thread->m_cb)` -/
  | take
  | notify
  /-- the callback runs -/
  | callback
  | done
deriving DecidableEq, Repr

/-- A thread of the kernel; `t_thread_name`, and whether it has a callback of its own. -/
structure KernelThread where
  tid : Nat
  pc : RunPc
  name : Bytes
  hasCb : Bool
deriving DecidableEq, Repr

inductive Stage where
  | absent
  | constructing
  | alive
  | destroyed
deriving DecidableEq, Repr

/-- A `Thread`: `m_id` is `none` for `-1`, and `m_cb` and `m_thread` are whether they are set. -/
structure ThreadObject where
  stage : Stage
  id : Option Nat
  cb : Bool
  name : Bytes
  semaphore : Nat
  thread : Bool
deriving DecidableEq, Repr

namespace ThreadObject

/-- There is no object in this place yet. -/
def none : ThreadObject := ⟨.absent, .none, false, [], 0, false⟩

/-- The object can be used. -/
def usable (o : ThreadObject) : Bool := o.stage = .constructing || o.stage = .alive

end ThreadObject

/-- Where the thread is that uses the class. -/
inductive CreatorPc (n : Nat) where
  | free
  /-- in a constructor, before `m_semaphore.wait()` -/
  | waiting (i : Fin n)
  /-- in `pthread_join` -/
  | joining (i : Fin n)
deriving DecidableEq, Repr

/-- `n` places for objects, each with the thread that was made for it; how often its thread was given back to the system,
    and whether an object was used that does not exist. -/
structure Threads (n : Nat) where
  objects : Fin n → ThreadObject
  kernel : Fin n → Option KernelThread
  creator : CreatorPc n
  reaped : Fin n → Nat
  fault : Bool

namespace Threads

variable {n : Nat}

inductive Act (n : Nat) where
  /-- the constructor up to the wait; `none` when `pthread_create` fails -/
  | construct (i : Fin n) (name : Bytes) (tid : Option Nat)
  | wait
  | join (i : Fin n)
  | joined
  | destroy (i : Fin n)
  /-- a thread goes on -/
  | run (i : Fin n)
  /-- `SetName` in the callback of a thread -/
  | setName (i : Fin n) (name : Bytes)
deriving DecidableEq, Repr

def init (n : Nat) : Threads n := ⟨fun _ => .none, fun _ => none, .free, fun _ => 0, false⟩

def setObject (s : Threads n) (i : Fin n) (o : ThreadObject) : Threads n :=
  { s with objects := Function.update s.objects i o }

def setKernel (s : Threads n) (i : Fin n) (k : KernelThread) : Threads n :=
  { s with kernel := Function.update s.kernel i (some k) }

/-- The thread of an object is given back. -/
def reap (s : Threads n) (i : Fin n) : Threads n :=
  { s with reaped := Function.update s.reaped i (s.reaped i + 1) }

/-- A use of an object, which is a fault when there is none. -/
def use (s : Threads n) (i : Fin n) (f : ThreadObject → ThreadObject) : Threads n :=
  if (s.objects i).usable then s.setObject i (f (s.objects i)) else { s with fault := true }

/-- The name of a `Thread`. -/
def nameOf (name : Bytes) : Bytes := if name = [] then ascii "UNKNOW" else name

/-- Without a thread the constructor throws. -/
def construct (s : Threads n) (i : Fin n) (name : Bytes) (tid : Option Nat) : Threads n :=
  match tid with
  | none => s.setObject i ⟨.destroyed, none, false, [], 0, false⟩
  | some tid =>
    { (s.setObject i ⟨.constructing, none, true, nameOf name, 0, true⟩).setKernel i ⟨tid, .adopt, ascii "UNKNOW", false⟩ with
      creator := .waiting i }

/-- The next step of `Thread::run`. -/
def run (s : Threads n) (i : Fin n) (k : KernelThread) : Option (Threads n) :=
  match k.pc with
  | .adopt => some ((s.use i id).setKernel i { k with pc := .identify, name := (s.objects i).name })
  | .identify => some ((s.use i fun o => { o with id := some k.tid }).setKernel i { k with pc := .label })
  | .label => some ((s.use i id).setKernel i { k with pc := .take })
  | .take => some ((s.use i fun o => { o with cb := false }).setKernel i { k with pc := .notify, hasCb := (s.objects i).cb })
  | .notify => some ((s.use i fun o => { o with semaphore := o.semaphore + 1 }).setKernel i { k with pc := .callback })
  | .callback => some (s.setKernel i { k with pc := .done })
  | .done => none

def step (s : Threads n) : Act n → Option (Threads n)
  | .construct i name tid =>
    if s.creator = .free ∧ (s.objects i).stage = .absent then some (s.construct i name tid) else none
  | .wait =>
    match s.creator with
    | .waiting i =>
      if 0 < (s.objects i).semaphore then
        some { s.setObject i { s.objects i with stage := .alive, semaphore := (s.objects i).semaphore - 1 } with creator := .free }
      else none
    | _ => none
  | .join i =>
    if s.creator = .free ∧ (s.objects i).stage = .alive then
      some (if (s.objects i).thread then { s with creator := .joining i } else s)
    else none
  | .joined =>
    match s.creator with
    | .joining i =>
      if (s.kernel i).any fun k => k.pc = .done then
        some { (s.setObject i { s.objects i with thread := false }).reap i with creator := .free }
      else none
    | _ => none
  | .destroy i =>
    if s.creator = .free ∧ (s.objects i).stage = .alive then
      let t := s.setObject i { s.objects i with stage := .destroyed }
      some (if (s.objects i).thread then t.reap i else t)
    else none
  | .run i => (s.kernel i).bind (s.run i)
  | .setName i name =>
    match s.kernel i with
    | some k =>
      if k.pc = .callback then some ((s.use i fun o => { o with name }).setKernel i { k with name }) else none
    | none => none

end Threads
end MyHttp

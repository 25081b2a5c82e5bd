import MyHttp.Lib.Machine
import Mathlib.Logic.Function.Basic

/-! `HttpConnectionPool` under calls from any number of threads (`http_connection.cpp`). What is done under the mutex
    is one step; the deletions, the changes of `m_total`, the connecting and the tests of `ReleasePtr` are steps of
    their own. Who holds a connection may drop it in any thread, and who holds its socket may close it at any time. -/

namespace MyHttp
namespace Http

open Lib.Machine

structure HttpConnection where
  connected : Bool
  createTime : Nat
  request : Nat
  /-- when the connection was made; the code has no such member -/
  established : Nat
  /-- how often `getConnection` has returned it; the code has no such member -/
  leases : Nat
deriving DecidableEq, Repr

/-- `new HttpConnection(sock)`: nothing is assigned to `m_createTime`, here or later. -/
def HttpConnection.new (now : Nat) : HttpConnection := ⟨true, 0, 0, now, 0⟩

/-- Why `getConnection` does not take a connection out of the list to return it. -/
def HttpConnection.invalid (o : HttpConnection) (maxAliveTime : UInt32) (now : Nat) : Bool :=
  !o.connected || wrap64 (o.createTime + maxAliveTime.toNat) > now

/-- Why `ReleasePtr` does not put a connection back. -/
def HttpConnection.dropped (o : HttpConnection) (maxAliveTime maxRequest : UInt32) (now : Nat) : Bool :=
  !o.connected || wrap64 (o.createTime + maxAliveTime.toNat) ≥ now || o.request > maxRequest.toNat

/-- Where a thread is. -/
inductive PoolPc where
  | out
  /-- `getConnection`, with the clock read and the mutex not yet taken -/
  | lock (now : Nat)
  /-- the invalid connections still to delete, how many there were, and the connection found -/
  | delete (invalid : List Nat) (size : Nat) (found : Option Nat)
  | connect
  /-- before `++m_total` -/
  | add (c : Nat)
  | hand (c : Nat)
  /-- `ReleasePtr` -/
  | request (c : Nat)
  | test (c : Nat)
  | discard (c : Nat)
  /-- before `--m_total` -/
  | subtract
  | keep (c : Nat)
deriving DecidableEq, Repr

structure HttpConnectionPool (n : Nat) where
  maxSize : UInt32
  maxAliveTime : UInt32
  maxRequest : UInt32
  conns : List Nat
  /-- `m_total`, an `int32_t` -/
  total : Int
  /-- the connections by address; addresses from `made` on were never given out -/
  object : Nat → HttpConnection
  made : Nat
  /-- the connections that users hold -/
  leased : List Nat
  /-- the connections that were deleted, in order -/
  deleted : List Nat
  clock : Nat
  threads : Fin n → PoolPc
  /-- what the list has given to a call: when it was made, and the clock of the call -/
  handed : List (Nat × Nat)
  /-- what was judged fit to be deleted, with the clock of the call -/
  destroyed : List (HttpConnection × Nat)

inductive PoolAct (n : Nat) where
  | getConnection (i : Fin n)
  /-- the last pointer of a user goes away -/
  | release (i : Fin n) (c : Nat)
  | run (i : Fin n)
  /-- address, socket and connect, which may fail -/
  | connect (i : Fin n) (ok : Bool)
  | close (c : Nat)
  | tick (ms : Nat)
deriving DecidableEq, Repr

namespace HttpConnectionPool

variable {n : Nat}

def init (n : Nat) (maxSize maxAliveTime maxRequest : UInt32) (clock : Nat) : HttpConnectionPool n where
  maxSize
  maxAliveTime
  maxRequest
  conns := []
  total := 0
  object _ := .new 0
  made := 0
  leased := []
  deleted := []
  clock
  threads _ := .out
  handed := []
  destroyed := []

def goto (s : HttpConnectionPool n) (i : Fin n) (pc : PoolPc) : HttpConnectionPool n :=
  { s with threads := Function.update s.threads i pc }

def setObject (s : HttpConnectionPool n) (c : Nat) (o : HttpConnection) : HttpConnectionPool n :=
  { s with object := Function.update s.object c o }

def invalid (s : HttpConnectionPool n) (now c : Nat) : Bool := (s.object c).invalid s.maxAliveTime now

/-- The connections that the loop of `getConnection` takes out of the list and throws away. -/
def invalidConns (s : HttpConnectionPool n) (now : Nat) : List Nat := s.conns.takeWhile (s.invalid now)

/-- The connection that it takes out of the list to return. -/
def found (s : HttpConnectionPool n) (now : Nat) : Option Nat := (s.conns.dropWhile (s.invalid now)).head?

/-- The loop of `getConnection` under the mutex. -/
def pop (s : HttpConnectionPool n) (now : Nat) : HttpConnectionPool n :=
  { s with
    conns := (s.conns.dropWhile (s.invalid now)).tail
    handed := s.handed ++ (s.found now).toList.map fun c => ((s.object c).established, now)
    destroyed := s.destroyed ++ (s.invalidConns now).map fun c => (s.object c, now) }

def afterDelete : Option Nat → PoolPc
  | some c => .hand c
  | none => .connect

def dropped (s : HttpConnectionPool n) (c : Nat) : Bool := (s.object c).dropped s.maxAliveTime s.maxRequest s.clock

/-- The next step of a thread inside `getConnection` or `ReleasePtr`. -/
def run (s : HttpConnectionPool n) (i : Fin n) : PoolPc → Option (HttpConnectionPool n)
  | .lock now =>
    some ((s.pop now).goto i (.delete (s.invalidConns now) (s.invalidConns now).length (s.found now)))
  | .delete (c :: invalid) size found =>
    some ({ s with deleted := s.deleted ++ [c] }.goto i (.delete invalid size found))
  | .delete [] size found => some ({ s with total := int32 (s.total - size) }.goto i (afterDelete found))
  | .add c => some ({ s with total := int32 (s.total + 1) }.goto i (.hand c))
  | .hand c =>
    some (({ s with leased := s.leased ++ [c] }.setObject c
      { s.object c with leases := (s.object c).leases + 1 }).goto i .out)
  | .request c => some ((s.setObject c { s.object c with request := (s.object c).request + 1 }).goto i (.test c))
  | .test c =>
    if s.dropped c then some ({ s with destroyed := s.destroyed ++ [(s.object c, s.clock)] }.goto i (.discard c))
    else some (s.goto i (.keep c))
  | .discard c => some ({ s with deleted := s.deleted ++ [c] }.goto i .subtract)
  | .subtract => some ({ s with total := int32 (s.total - 1) }.goto i .out)
  | .keep c => some ({ s with conns := s.conns ++ [c] }.goto i .out)
  | .out | .connect => none

def step (s : HttpConnectionPool n) : PoolAct n → Option (HttpConnectionPool n)
  | .getConnection i => if s.threads i = .out then some (s.goto i (.lock s.clock)) else none
  | .release i c =>
    if s.threads i = .out ∧ c ∈ s.leased then some ({ s with leased := s.leased.erase c }.goto i (.request c)) else none
  | .run i => s.run i (s.threads i)
  | .connect i ok =>
    if s.threads i = .connect then
      if ok then
        some (({ s with made := s.made + 1 }.setObject s.made (.new s.clock)).goto i (.add s.made))
      else some (s.goto i .out)
    else none
  | .close c => some (s.setObject c { s.object c with connected := false })
  | .tick ms => some { s with clock := s.clock + ms }

end HttpConnectionPool
end Http
end MyHttp

import MyHttp.Http.ConnectionPool
import MyHttp.Http.Framing

/-! `HttpConnectionPool::doRequest` by any number of threads, against a server that answers every request it has received
    on a connection, completely and in order, but as late as it likes. What a connection has still to bring is the stream
    that `recvResponse` reads; any read of it may run into the receive timeout. -/

namespace MyHttp
namespace Http

open Lib.CString HttpResponseParser

/-- An answer that the client can tell the end of. -/
structure Reply where
  head : Bytes
  payload : Bytes
  body : Bytes
  isHead : IsHead head
  finished : (whole head).isFinished = true
  framed : Framed head payload body

def Reply.bytes (m : Reply) : Bytes := m.head ++ m.payload

/-- What the server sends for a request. -/
inductive Answer where
  | reply (m : Reply)
  /-- anything else, such as the head alone for a `HEAD` -/
  | other (bytes : Bytes)

def Answer.bytes : Answer → Bytes
  | .reply m => m.bytes
  | .other bytes => bytes

/-- What becomes of a request that is sent. -/
inductive Sending where
  | answered (a : Answer)
  /-- `sendRequest` gives 0 or less; the server has all of the request when its length does not fit an `int`, and else
      it has gone, or has a part of the request, and answers nothing any more -/
  | failed (closed : Bool) (a : Option Answer)
  /-- sent to a server that answers nothing any more -/
  | lost

/-- `HttpResult::Error`, without those of functions other than `doRequest` of a pool, and without
    `POOL_INVALID_CONNECTION`: every connection is made with a socket. -/
inductive HttpError where
  | ok
  | sendCloseByPeer
  | sendSocketError
  | timeout
  | poolGetConnection
deriving DecidableEq, Repr

/-- The result of a call, with the answer to its request; the code has no such member. -/
structure HttpResult where
  error : HttpError
  response : Option HttpResponse
  answer : Option Answer

/-- A connection of the pool as the network has it. -/
structure Link where
  /-- what the server has sent or will send, and nobody has read -/
  unread : Bytes
  dead : Bool
  /-- the last request was answered, and no response came of it -/
  missed : Bool

/-- Where a thread is in `doRequest`. -/
inductive Call where
  /-- outside, or in `getConnection`, or in `ReleasePtr` -/
  | out
  /-- before `sendRequest` -/
  | send (c : Nat)
  | recv (c : Nat) (answer : Option Answer) (r : RecvResponse)
  /-- with a result; the connection goes away -/
  | release (c : Nat)

structure PoolClient (n : Nat) where
  pool : HttpConnectionPool n
  buffSize : Nat
  /-- `std::string::max_size()` -/
  stringSize : Nat
  link : Nat → Link
  calls : Fin n → Call
  results : List HttpResult

inductive ClientAct (n : Nat) where
  /-- a step of `getConnection` or `ReleasePtr`, or of the environment -/
  | pool (a : PoolAct n)
  | send (i : Fin n) (sent : Sending)
  | recv (i : Fin n) (a : RecvAct)
  /-- a read runs into the receive timeout -/
  | timeout (i : Fin n)

namespace PoolClient

variable {n : Nat}

def init (n : Nat) (maxSize maxAliveTime maxRequest : UInt32) (clock buffSize stringSize : Nat) : PoolClient n where
  pool := .init n maxSize maxAliveTime maxRequest clock
  buffSize
  stringSize
  link _ := ⟨[], false, false⟩
  calls _ := .out
  results := []

def setCall (s : PoolClient n) (i : Fin n) (call : Call) : PoolClient n := { s with calls := Function.update s.calls i call }

def setLink (s : PoolClient n) (c : Nat) (l : Link) : PoolClient n := { s with link := Function.update s.link c l }

/-- A step of the pool. `getConnection` and `ReleasePtr` are called where `doRequest` calls them. -/
def poolStep (s : PoolClient n) (a : PoolAct n) : Option (PoolClient n) :=
  match a with
  | .getConnection i =>
    match s.calls i with
    | .out => (s.pool.step a).map fun pool => { s with pool }
    | _ => none
  | .release i c =>
    match s.calls i with
    | .release c' => if c = c' then (s.pool.step a).map fun pool => { s with pool }.setCall i .out else none
    | _ => none
  | .run i =>
    (s.pool.step a).map fun pool =>
      match s.pool.threads i with
      | .hand c => { s with pool }.setCall i (.send c)
      | _ => { s with pool }
  | .connect _ ok =>
    (s.pool.step a).map fun pool =>
      let result : HttpResult := ⟨.poolGetConnection, none, none⟩
      if ok then { s with pool } else { s with pool, results := s.results ++ [result] }
  | .close _ | .tick _ => (s.pool.step a).map fun pool => { s with pool }

def sendRequest (s : PoolClient n) (i : Fin n) (c : Nat) (sent : Sending) : Option (PoolClient n) :=
  let l := s.link c
  match sent with
  | .answered a =>
    let unread := l.unread ++ a.bytes
    if l.dead then none
    else some ((s.setLink c { l with unread }).setCall i (.recv c (some a) (.init s.buffSize s.stringSize unread)))
  | .failed closed a =>
    let result : HttpResult := ⟨if closed then .sendCloseByPeer else .sendSocketError, none, a⟩
    let l : Option Link :=
      match a with
      | some a => if l.dead then none else some { l with unread := l.unread ++ a.bytes, missed := true }
      | none => some { l with dead := true }
    l.map fun l => { s.setLink c l with results := s.results ++ [result] }.setCall i (.release c)
  | .lost => if l.dead then some (s.setCall i (.recv c none (.init s.buffSize s.stringSize l.unread))) else none

/-- `recvResponse` has come to `r`. An exception leaves `doRequest` without a result. -/
def received (s : PoolClient n) (i : Fin n) (c : Nat) (answer : Option Answer) (r : RecvResponse) : PoolClient n :=
  let l := { s.link c with unread := r.input }
  match r.pc with
  | .returned response =>
    let result : HttpResult := if response then ⟨.ok, some r.parser.data, answer⟩ else ⟨.timeout, none, answer⟩
    { s.setLink c { l with missed := answer.isSome && !response } with results := s.results ++ [result] }.setCall i (.release c)
  | .fault => (s.setLink c { l with missed := answer.isSome }).setCall i (.release c)
  | _ => (s.setLink c l).setCall i (.recv c answer r)

/-- `recvResponse` is in a read. -/
def reading : RecvPc → Bool
  | .headRead | .chunkRead | .leftRead | .fixRead => true
  | _ => false

def step (s : PoolClient n) : ClientAct n → Option (PoolClient n)
  | .pool a => s.poolStep a
  | .send i sent =>
    match s.calls i with
    | .send c => s.sendRequest i c sent
    | _ => none
  | .recv i a =>
    match s.calls i with
    | .recv c answer r => (r.step a).map (s.received i c answer)
    | _ => none
  | .timeout i =>
    match s.calls i with
    | .recv c answer r => if reading r.pc then some (s.received i c answer { r with pc := .returned false }) else none
    | _ => none

end PoolClient
end Http
end MyHttp

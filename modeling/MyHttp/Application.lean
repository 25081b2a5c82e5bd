import MyHttp.Address.Interfaces
import MyHttp.Config.Casts
import MyHttp.Env
import MyHttp.TcpServer
import MyHttp.Uri

/-! `Application::run_fiber` and `Application::main` (`application.cpp`), and the process that starts them over again
    (`daemon.cpp`). -/

namespace MyHttp

open Lib.CString

/-- What the system answers while an address of the configuration is looked at: `getaddrinfo` for a node and a service, with an
    empty list when it fails, `getifaddrs`, and the calls for the address of an interface. -/
structure AddressWorld where
  getaddrinfo : Bytes → Option Bytes → List BindAddress
  getifaddrs : Option (List IfAddrs)
  serve : IPAddress → BindAddress

/-- `HttpServer`, with `m_socks` of its `TcpServer`. -/
structure Http.HttpServer where
  isKeepalive : Bool
  name : Bytes
  tcp : TcpServer
  isStop : Bool
deriving DecidableEq, Repr

/-- `setPort`. -/
def IPAddress.setPort (host : Endian) (port : BitVec 16) : IPAddress → IPAddress
  | .ipv4 addr => .ipv4 { addr with port := byteswapOnLittleEndian host port }
  | .ipv6 addr => .ipv6 { addr with port := byteswapOnLittleEndian host port }

namespace Application

/-- `Address::LookupAny`. -/
def lookupAny (world : AddressWorld) (a : Bytes) : Option BindAddress :=
  let (node, service) := Address.lookupArgs a
  (world.getaddrinfo node service).head?

/-- One round of the loop over the addresses of a server; `none` when a null pointer is followed. -/
def resolve (host : Endian) (world : AddressWorld) (address : List BindAddress) (a : Bytes) : Option (List BindAddress) :=
  match Address.memchr 58 a with
  | none => some address
  | some port =>
    match lookupAny world a with
    | some addr => some (address ++ [addr])
    | none =>
      (Address.getInterfaceAddresses world.getifaddrs [] (a.take (a.length - port.length)) Address.afUnspec).map fun r =>
        if r.1 then address
        else address ++ r.2.map fun x => world.serve (x.1.setPort host (BitVec.ofInt 16 (UriReader.atoi port.tail)))

/-- The loop, with the place of the next address. -/
def resolveAll (host : Endian) (world : Nat → AddressWorld) : Nat → List BindAddress → List Bytes → Option (List BindAddress)
  | _, address, [] => some address
  | j, address, a :: rest => (resolve host (world j) address a).bind fun address => resolveAll host world (j + 1) address rest

/-- A server that is bound and started; `none` when `bind` fails. -/
def startServer (conf : HttpServerConf) (address : List BindAddress) : Option Http.HttpServer :=
  match (⟨[]⟩ : TcpServer).bind address [] with
  | (true, _, tcp) =>
    some ⟨conf.keepalive ≠ 0, if conf.name ≠ [] then conf.name else ascii "sylar/1.0.0", tcp, false⟩
  | (false, _, _) => none

/-- How `run_fiber` ends. -/
inductive Ending where
  | returned
  /-- by `_exit(0)` -/
  | exited
  /-- by a null pointer -/
  | crashed
deriving DecidableEq, Repr

/-- `run_fiber`, with the place of the next configuration and `m_httpservers`. -/
def runFiber (host : Endian) (world : Nat → Nat → AddressWorld) :
    Nat → List Http.HttpServer → List HttpServerConf → Ending × List Http.HttpServer
  | _, httpservers, [] => (.returned, httpservers)
  | k, httpservers, conf :: confs =>
    match resolveAll host (world k) 0 [] conf.address with
    | none => (.crashed, httpservers)
    | some address =>
      match startServer conf address with
      | none => (.exited, httpservers)
      | some server => runFiber host world (k + 1) (httpservers ++ [server]) confs

/-- What a process meets that runs `main`. -/
structure Child where
  /-- the file for the process number can be opened -/
  pidfile : Bool
  addresses : Nat → Nat → AddressWorld
  /-- the status with which it ends once it has sockets to serve -/
  killed : Nat

/-- The status of a process that runs `main`, as `waitpid` gives it: `main` returns 0 also when it fails, and a null pointer ends it by a
    signal. -/
def status (host : Endian) (confs : List HttpServerConf) (child : Child) : Nat :=
  if child.pidfile then
    match runFiber host child.addresses 0 [] confs with
    | (.crashed, _) => 11
    | (.exited, _) => 0
    | (.returned, httpservers) => if httpservers.all fun server => server.tcp.socks.isEmpty then 0 else child.killed
  else 0

end Application

/-- Where `real_daemon` is in the parent process. -/
inductive DaemonPc where
  | start
  | fork
  /-- in `waitpid` -/
  | waitpid (child : Application.Child)
  | sleep
  | returned (rt : Int)

/-- The parent process. -/
structure Daemon where
  pc : DaemonPc
  restartCount : BitVec 32
  /-- the children so far -/
  children : List Application.Child

namespace Daemon

inductive Act where
  /-- whether `daemon` fails -/
  | daemon (fails : Bool)
  /-- there is no child when `fork` fails -/
  | fork (child : Option Application.Child)
  | waitpid
  | wake

def init : Daemon := ⟨.start, 0, []⟩

def step (host : Endian) (confs : List HttpServerConf) (s : Daemon) : Act → Option Daemon
  | .daemon fails =>
    match s.pc with
    | .start => some { s with pc := if fails then .returned (-1) else .fork }
    | _ => none
  | .fork child =>
    match s.pc with
    | .fork =>
      match child with
      | none => some { s with pc := .returned (-1) }
      | some child => some { s with pc := .waitpid child, children := s.children ++ [child] }
    | _ => none
  | .waitpid =>
    match s.pc with
    | .waitpid child =>
      if Application.status host confs child ≠ 0 then some { s with pc := .sleep, restartCount := s.restartCount + 1 }
      else some { s with pc := .returned 0 }
    | _ => none
  | .wake =>
    match s.pc with
    | .sleep => some { s with pc := .fork }
    | _ => none

end Daemon
end MyHttp

import Mathlib.Logic.Function.Basic

/-! The life of `Socket` objects (`socket.cpp`): the descriptors that they get from the kernel and give back, and the addresses
    that they keep. -/

namespace MyHttp

inductive Family where
  | ipv4
  | ipv6
  | unix
  | other (family : Nat)
deriving DecidableEq, Repr

structure SocketObject where
  family : Family
  /-- `SOCK_DGRAM` -/
  udp : Bool
  sock : Option Nat
  isConnected : Bool
  localAddress : Option Nat
  remoteAddress : Option Nat
deriving DecidableEq, Repr

/-- The objects by their addresses, the descriptors that are open, and those of them that `accept` gave to no object. -/
structure Sockets where
  objects : Nat → Option SocketObject
  isOpen : Nat → Bool
  lost : List Nat
  /-- a null pointer was followed -/
  crashed : Bool

namespace Sockets

def empty : Sockets := ⟨fun _ => none, fun _ => false, [], false⟩

def modify (s : Sockets) (i : Nat) (f : SocketObject → SocketObject) : Sockets :=
  { s with objects := Function.update s.objects i ((s.objects i).map f) }

def isValid (s : Sockets) (i : Nat) : Bool := (s.objects i).any (·.sock.isSome)

/-- `newSock`; `fd` is what `socket` returns. -/
def newSock (s : Sockets) (i : Nat) : Option Nat → Sockets
  | none => s
  | some fd => { s.modify i fun o => { o with sock := some fd } with isOpen := Function.update s.isOpen fd true }

def close (s : Sockets) (i : Nat) : Sockets :=
  match (s.objects i).bind (·.sock) with
  | none => s.modify i fun o => { o with isConnected := false }
  | some fd =>
    { s.modify i fun o => { o with isConnected := false, sock := none } with isOpen := Function.update s.isOpen fd false }

/-- What is kept of an address that a system call gives, if it does. For `AF_UNIX` the `switch` runs on into its default, and
    the cast of that address is null. -/
def keep (family : Family) (cached result : Option Nat) : Option (Option Nat) :=
  match cached, result with
  | some a, _ => some (some a)
  | none, none => some none
  | none, some a => if family = .unix then none else some (some a)

def getLocalAddress (s : Sockets) (i : Nat) (result : Option Nat) : Sockets :=
  match (s.objects i).map fun o => keep o.family o.localAddress result with
  | some (some a) => s.modify i fun o => { o with localAddress := a }
  | some none => { s with crashed := true }
  | none => s

def getRemoteAddress (s : Sockets) (i : Nat) (result : Option Nat) : Sockets :=
  match (s.objects i).map fun o => keep o.family o.remoteAddress result with
  | some (some a) => s.modify i fun o => { o with remoteAddress := a }
  | some none => { s with crashed := true }
  | none => s

/-- A socket without a descriptor asks for one. -/
def ensureSock (s : Sockets) (i : Nat) (fd : Option Nat) : Sockets := if s.isValid i then s else s.newSock i fd

/-- Whether `bind` and `connect` come to their system call. -/
def ready (s : Sockets) (i : Nat) (family : Family) : Bool := s.isValid i && (s.objects i).any (·.family = family)

def bind (s : Sockets) (i : Nat) (family : Family) (fd : Option Nat) (ok : Bool) (name : Option Nat) : Sockets :=
  let s := s.ensureSock i fd
  if s.ready i family && ok then s.getLocalAddress i name else s

def connect (s : Sockets) (i : Nat) (family : Family) (fd : Option Nat) (ok : Bool) (peer name : Option Nat) : Sockets :=
  let s := s.ensureSock i fd
  if !s.ready i family then s
  else if !ok then s.close i
  else ((s.modify i fun o => { o with isConnected := true }).getRemoteAddress i peer).getLocalAddress i name

/-- A constructor. -/
def create (s : Sockets) (i : Nat) (family : Family) (udp : Bool) : Sockets :=
  { s with objects := Function.update s.objects i (some ⟨family, udp, none, false, none, none⟩) }

/-- `CreateUDP`, which is connected at once. -/
def createUDP (s : Sockets) (i : Nat) (family : Family) (fd : Option Nat) : Sockets :=
  ((s.create i family true).newSock i fd).modify i fun o => { o with isConnected := true }

/-- `init` of the new object of `accept`; `usable` is what it finds of the descriptor's context. -/
def accept (s : Sockets) (j : Nat) (o : SocketObject) (fd : Nat) (usable : Bool) (peer name : Option Nat) : Sockets :=
  if usable then
    ((((s.create j o.family o.udp).newSock j (some fd)).modify j fun o => { o with isConnected := true }).getLocalAddress j
      name).getRemoteAddress j peer
  else { s with isOpen := Function.update s.isOpen fd true, lost := fd :: s.lost }

/-- The destructor. -/
def destroy (s : Sockets) (i : Nat) : Sockets :=
  let s := s.close i
  { s with objects := Function.update s.objects i none }

/-- The calls, with what the kernel returns in them. -/
inductive Act where
  | create (i : Nat) (family : Family) (udp : Bool)
  | createUDP (i : Nat) (family : Family) (fd : Option Nat)
  | bind (i : Nat) (family : Family) (fd : Option Nat) (ok : Bool) (name : Option Nat)
  | connect (i : Nat) (family : Family) (fd : Option Nat) (ok : Bool) (peer name : Option Nat)
  | accept (i j : Nat) (fd : Nat) (usable : Bool) (peer name : Option Nat)
  | getLocalAddress (i : Nat) (name : Option Nat)
  | getRemoteAddress (i : Nat) (peer : Option Nat)
  | close (i : Nat)
  | destroy (i : Nat)
deriving DecidableEq, Repr

/-- The kernel gives only descriptors that are not open. -/
def free (s : Sockets) (fd : Option Nat) : Bool := fd.all fun fd => !s.isOpen fd

def step (s : Sockets) (a : Act) : Option Sockets :=
  if s.crashed then none
  else
    match a with
    | .create i family udp => if (s.objects i).isNone then some (s.create i family udp) else none
    | .createUDP i family fd => if (s.objects i).isNone && s.free fd then some (s.createUDP i family fd) else none
    | .bind i family fd ok name => if (s.objects i).isSome && s.free fd then some (s.bind i family fd ok name) else none
    | .connect i family fd ok peer name =>
      if (s.objects i).isSome && s.free fd then some (s.connect i family fd ok peer name) else none
    | .accept i j fd usable peer name =>
      if s.isValid i && (s.objects j).isNone && s.free (some fd) then
        (s.objects i).map fun o => s.accept j o fd usable peer name
      else none
    | .getLocalAddress i name => if (s.objects i).isSome then some (s.getLocalAddress i name) else none
    | .getRemoteAddress i peer => if (s.objects i).isSome then some (s.getRemoteAddress i peer) else none
    | .close i => if (s.objects i).isSome then some (s.close i) else none
    | .destroy i => if (s.objects i).isSome then some (s.destroy i) else none

end Sockets
end MyHttp

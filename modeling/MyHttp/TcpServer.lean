/-! `TcpServer::bind` (`tcp_server.cpp`), with `Socket::bind` and `Socket::listen` (`socket.cpp`). -/

namespace MyHttp

/-- An address, and what the system calls return that are made for it: the descriptor of `socket`, if there is one, and
    whether `::bind` and `::listen` succeed. -/
structure BindAddress where
  family : Nat
  name : Nat
  socket : Option Nat
  bound : Bool
  listened : Bool
deriving DecidableEq, Repr

/-- `m_family`, `m_sock` and the local address. -/
structure Socket where
  family : Nat
  sock : Option Nat
  localAddress : Option Nat
deriving DecidableEq, Repr

namespace Socket

/-- `CreateTCP`: there is no descriptor yet. -/
def createTCP (addr : BindAddress) : Socket := ⟨addr.family, none, none⟩

def isValid (s : Socket) : Bool := s.sock.isSome

/-- `newSock`, where there is no descriptor. -/
def newSock (s : Socket) (addr : BindAddress) : Socket := if s.isValid then s else { s with sock := addr.socket }

/-- `Socket::bind`, with the socket afterwards. -/
def bind (s : Socket) (addr : BindAddress) : Bool × Socket :=
  let s := s.newSock addr
  if !s.isValid then (false, s)
  else if addr.family ≠ s.family then (false, s)
  else if !addr.bound then (false, s)
  else (true, { s with localAddress := some addr.name })

/-- `Socket::listen`. -/
def listen (s : Socket) (addr : BindAddress) : Bool := s.isValid && addr.listened

end Socket

/-- `m_socks`. -/
structure TcpServer where
  socks : List Socket
deriving DecidableEq, Repr

namespace TcpServer

/-- The loop over the addresses: `fails` and `m_socks` at its end. -/
def bindLoop (fails : List BindAddress) (socks : List Socket) : List BindAddress → List BindAddress × List Socket
  | [] => (fails, socks)
  | addr :: addrs =>
    let (bound, sock) := (Socket.createTCP addr).bind addr
    if !bound then bindLoop (fails ++ [addr]) socks addrs
    else if !sock.listen addr then bindLoop (fails ++ [addr]) socks addrs
    else bindLoop fails (socks ++ [sock]) addrs

/-- `bind(addrs, fails)`: what it returns, `fails` and the server afterwards. -/
def bind (s : TcpServer) (addrs fails : List BindAddress) : Bool × List BindAddress × TcpServer :=
  let (fails, socks) := bindLoop fails s.socks addrs
  if fails ≠ [] then (false, fails, ⟨[]⟩) else (true, fails, ⟨socks⟩)

/-- `bind(addr)`. -/
def bindOne (s : TcpServer) (addr : BindAddress) : Bool × TcpServer :=
  let (result, _, s) := s.bind [addr] []
  (result, s)

end TcpServer
end MyHttp

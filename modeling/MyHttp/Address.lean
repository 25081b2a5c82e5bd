import MyHttp.ByteArray
import MyHttp.Lib.AddressText
import MyHttp.Lib.Bits
import MyHttp.Lib.Machine

/-! The addresses of networks (`address.cpp`): what `Address::Lookup` asks for, and `IPv4Address` and `IPv6Address`, their
    networks and the text of the latter. -/

namespace MyHttp

open Lib.AddressText Lib.Bits Lib.CString Lib.Machine

namespace Address

/-- The text from the first such byte on, if there is one, as a pointer into a string. -/
def memchr (c : UInt8) (s : Bytes) : Option Bytes :=
  if s.contains c then some (s.dropWhile (· ≠ c)) else none

/-- The node and the service of a host in square brackets, with `service` as a pointer into the host. -/
def bracketedNode (host : Bytes) : Bytes × Option Bytes :=
  if host.head? = some 91 then
    match memchr 93 host.tail with
    | some endipv6 =>
      (host.tail.take (host.tail.length - endipv6.length), if endipv6.tail.head? = some 58 then some (endipv6.drop 2) else none)
    | none => ([], none)
  else ([], none)

/-- The node and the service when there are no brackets. -/
def plainNode (host : Bytes) : Bytes × Option Bytes :=
  match memchr 58 host with
  | some service =>
    if (memchr 58 service.tail).isNone then (host.take (host.length - service.length), some service.tail)
    else ([], some service)
  | none => ([], none)

/-- The strings that `Address::Lookup` passes to `getaddrinfo`; they end at a NUL. -/
def lookupArgs (host : Bytes) : Bytes × Option Bytes :=
  let (node, service) := bracketedNode host
  let (node, service) := if node = [] then plainNode host else (node, service)
  let node := if node = [] then host else node
  (node.takeWhile (· ≠ 0), service.map (·.takeWhile (· ≠ 0)))

end Address

/-- What is not defined. -/
inductive AddressFault where
  /-- a shift by the width of `int` or more -/
  | shift
  | overflow
  /-- an index behind the end of `s6_addr` -/
  | index
deriving DecidableEq, Repr

/-- `CreateMask`, with the width of the type. It computes in `int`. -/
def createMask (w bits : Nat) : Except AddressFault (BitVec w) :=
  let shift := sub64 w bits
  if 32 ≤ shift then .error .shift
  else
    let bit := int32 (2 ^ shift)
    if bit - 1 < -2 ^ 31 then .error .overflow else .ok (BitVec.ofInt w (bit - 1))

/-- `byteswapOnLittleEndian`, with the order of the machine. -/
def byteswapOnLittleEndian {w : Nat} (host : Endian) (t : BitVec w) : BitVec w :=
  if host = .little then byteswap t else t

/-- `sockaddr_in`. -/
structure IPv4Address where
  family : BitVec 16
  port : BitVec 16
  addr : BitVec 32
deriving DecidableEq, Repr

namespace IPv4Address

/-- `AF_INET`. -/
def afInet : BitVec 16 := 2

/-- The constructor of an address and a port. -/
def make (host : Endian) (address : BitVec 32) (port : BitVec 16) : IPv4Address :=
  ⟨afInet, byteswapOnLittleEndian host port, byteswapOnLittleEndian host address⟩

/-- `broadcastAddress`; `none` is the null pointer. -/
def broadcastAddress (host : Endian) (a : IPv4Address) (prefixLen : Nat) : Except AddressFault (Option IPv4Address) :=
  if prefixLen > 32 then .ok none
  else (createMask 32 prefixLen).map fun mask => some { a with addr := a.addr ||| byteswapOnLittleEndian host mask }

/-- `networdAddress`. -/
def networdAddress (host : Endian) (a : IPv4Address) (prefixLen : Nat) : Except AddressFault (Option IPv4Address) :=
  if prefixLen > 32 then .ok none
  else (createMask 32 prefixLen).map fun mask => some { a with addr := a.addr &&& byteswapOnLittleEndian host mask }

/-- `subnetMast`. -/
def subnetMast (host : Endian) (prefixLen : Nat) : Except AddressFault IPv4Address :=
  (createMask 32 prefixLen).map fun mask => ⟨afInet, 0, ~~~byteswapOnLittleEndian host mask⟩

end IPv4Address

/-- `sockaddr_in6`, with the bytes of `s6_addr`. -/
structure IPv6Address where
  family : BitVec 16
  port : BitVec 16
  addr : Fin 16 → BitVec 8

namespace IPv6Address

/-- `AF_INET6`. -/
def afInet6 : BitVec 16 := 10

/-- The constructor of 16 bytes and a port. -/
def make (host : Endian) (address : Fin 16 → BitVec 8) (port : BitVec 16) : IPv6Address :=
  ⟨afInet6, byteswapOnLittleEndian host port, address⟩

/-- `getPort`. -/
def getPort (host : Endian) (a : IPv6Address) : BitVec 16 := byteswapOnLittleEndian host a.port

/-- A place in `s6_addr`. -/
def place (i : Nat) : Fin 16 := Fin.ofNat 16 i

/-- `s6_addr` as words of the machine. -/
def word (host : Endian) (a : IPv6Address) (i : Nat) : BitVec 16 :=
  match host with
  | .little => a.addr (place (2 * i + 1)) ++ a.addr (place (2 * i))
  | .big => a.addr (place (2 * i)) ++ a.addr (place (2 * i + 1))

/-- One round of the loop of `insert`, on the text and `used_zeros`. -/
def insertGroup (host : Endian) (a : IPv6Address) (st : Bytes × Bool) (i : Nat) : Bytes × Bool :=
  let (os, usedZeros) := st
  if a.word host i = 0 ∧ usedZeros = false then (os, usedZeros)
  else
    let (os, usedZeros) :=
      if 0 < i ∧ a.word host (i - 1) = 0 ∧ usedZeros = false then (os ++ ascii ":", true) else (os, usedZeros)
    let os := if 0 < i then os ++ ascii ":" else os
    (os ++ hexText (byteswapOnLittleEndian host (a.word host i)).toNat, usedZeros)

/-- `insert`. -/
def insert (host : Endian) (a : IPv6Address) (os : Bytes) : Bytes :=
  let (os, usedZeros) := (List.range 8).foldl (a.insertGroup host) (os ++ ascii "[", false)
  let os := if usedZeros = false ∧ a.word host 7 = 0 then os ++ ascii "::" else os
  os ++ ascii "]:" ++ ascii (toString (a.getPort host).toNat)

/-- An assignment to `s6_addr[i]`. -/
def assign (addr : Fin 16 → BitVec 8) (i : Nat) (f : BitVec 8 → BitVec 8) : Except AddressFault (Fin 16 → BitVec 8) :=
  if h : i < 16 then .ok (Function.update addr ⟨i, h⟩ (f (addr ⟨i, h⟩))) else .error .index

/-- A loop that sets so many bytes from `i` on to `0xff`. -/
def fill : (count i : Nat) → (Fin 16 → BitVec 8) → Except AddressFault (Fin 16 → BitVec 8)
  | 0, _, addr => .ok addr
  | count + 1, i, addr => do fill count (i + 1) (← assign addr i fun _ => 0xff)

/-- `broadcastAddress`. -/
def broadcastAddress (a : IPv6Address) (prefixLen : Nat) : Except AddressFault IPv6Address := do
  let mask ← createMask 8 (prefixLen % 8)
  let addr ← assign a.addr (prefixLen / 8) (· ||| mask)
  let addr ← fill (16 - (prefixLen / 8 + 1)) (prefixLen / 8 + 1) addr
  return { a with addr }

/-- `networdAddress`. -/
def networdAddress (a : IPv6Address) (prefixLen : Nat) : Except AddressFault IPv6Address := do
  let mask ← createMask 8 (prefixLen % 8)
  let addr ← assign a.addr (prefixLen / 8) (· &&& mask)
  return { a with addr }

/-- `subnetMast`. -/
def subnetMast (prefixLen : Nat) : Except AddressFault IPv6Address := do
  let mask ← createMask 8 (prefixLen % 8)
  let addr ← assign (fun _ => 0) (prefixLen / 8) fun _ => ~~~mask
  let addr ← fill (prefixLen / 8) 0 addr
  return ⟨afInet6, 0, addr⟩

end IPv6Address
end MyHttp

import MyHttp.Address
import MyHttp.Lib.BitCount
import Mathlib.Data.List.FinRange

/-! `Address::GetInterfaceAddresses` (`address.cpp`), with what `getifaddrs` may give: an interface need not have an address, and
    the pointer to a netmask may be null. -/

namespace MyHttp

open Lib.Bits Lib.CString

/-- `sockaddr` behind `ifa_addr`, with the netmask in the structure of its family. -/
inductive IfAddress where
  | inet (port : BitVec 16) (addr : BitVec 32) (netmask : Option (BitVec 32))
  | inet6 (port : BitVec 16) (addr : Fin 16 → BitVec 8) (netmask : Option (Fin 16 → BitVec 8))
  | other (family : BitVec 16) (h : family ≠ IPv4Address.afInet ∧ family ≠ IPv6Address.afInet6)

/-- `ifaddrs`. -/
structure IfAddrs where
  name : Bytes
  addr : Option IfAddress

/-- `IPAddress`. -/
inductive IPAddress where
  | ipv4 (addr : IPv4Address)
  | ipv6 (addr : IPv6Address)

namespace Address

/-- `AF_UNSPEC`. -/
def afUnspec : BitVec 16 := 0

def familyOf : IfAddress → BitVec 16
  | .inet .. => IPv4Address.afInet
  | .inet6 .. => IPv6Address.afInet6
  | .other family _ => family

/-- `CountBytes`: each round clears a bit, so there are no more rounds than bits. -/
def countBytes {w : Nat} (value : BitVec w) : Nat := clearRounds w value

/-- The loop over the bytes of an IPv6 netmask. -/
def prefixLength (netmask : Fin 16 → BitVec 8) : Nat := (List.finRange 16).foldl (fun n i => n + countBytes (netmask i)) 0

/-- The address of one interface with its prefix length, if there is one of the family; `none` when a null pointer is followed. -/
def interfaceAddress (family : BitVec 16) (next : IfAddrs) : Option (Option (IPAddress × Nat)) :=
  match next.addr with
  | none => none
  | some addr =>
    if family ≠ afUnspec ∧ family ≠ familyOf addr then some none
    else
      match addr with
      | .inet port addr netmask => netmask.map fun mask => some (.ipv4 ⟨IPv4Address.afInet, port, addr⟩, countBytes mask)
      | .inet6 port addr netmask => netmask.map fun mask => some (.ipv6 ⟨IPv6Address.afInet6, port, addr⟩, prefixLength mask)
      | .other .. => some none

/-- The multimap of the interfaces, as the list of its entries in the order in which they are made. -/
def interfaceMap (family : BitVec 16) : List IfAddrs → Option (List (Bytes × IPAddress × Nat))
  | [] => some []
  | next :: rest =>
    (interfaceAddress family next).bind fun addr => (interfaceMap family rest).map fun result =>
      (addr.map fun addr => (next.name, addr)).toList ++ result

/-- The addresses of one interface: what is returned, and `result` afterwards. There is no list when `getifaddrs` fails. -/
def getInterfaceAddresses (getifaddrs : Option (List IfAddrs)) (result : List (IPAddress × Nat)) (iface : Bytes)
    (family : BitVec 16) : Option (Bool × List (IPAddress × Nat)) :=
  if iface = [] ∨ iface = ascii "*" then
    let result := if family = IPv4Address.afInet ∨ family = afUnspec then
      result ++ [(.ipv4 ⟨IPv4Address.afInet, 0, 0⟩, 0)] else result
    let result := if family = IPv6Address.afInet6 ∨ family = afUnspec then
      result ++ [(.ipv6 ⟨IPv6Address.afInet6, 0, fun _ => 0⟩, 0)] else result
    some (true, result)
  else
    match getifaddrs with
    | none => some (false, result)
    | some results => (interfaceMap family results).map fun its =>
      (true, result ++ (its.filter fun it => it.1 = iface).map (·.2))

end Address
end MyHttp

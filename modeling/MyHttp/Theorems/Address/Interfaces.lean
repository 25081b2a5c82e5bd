import MyHttp.Address.Interfaces
import MyHttp.Theorems.Address.IPv4Prefix
import MyHttp.Theorems.Address.IPv6Prefix

/-! What `GetInterfaceAddresses` finds. Its prefix lengths are the numbers of bits in the netmasks, whatever the order of the
    machine, so that a netmask that was made for a length is read back as that length. -/

namespace MyHttp
namespace Address

open Lib.Bits Lib.CString Lib.Machine

variable {family : BitVec 16} {next : IfAddrs} {l : List IfAddrs} {iface : Bytes} {p : Nat}

/-! ### Prefix lengths -/

theorem countBytes_eq {w : Nat} (value : BitVec w) : countBytes value = ones value := clearRounds_eq (ones_le value)

theorem prefixLength_eq (netmask : Fin 16 → BitVec 8) : prefixLength netmask = ((List.finRange 16).map fun i => ones (netmask i)).sum := by
  unfold prefixLength
  rw [List.sum_eq_foldl, List.foldl_map]
  simp only [countBytes_eq]

theorem countBytes_value (host : Endian) (a : IPv4Address) : countBytes a.addr = ones (a.value host) := by
  rw [countBytes_eq, IPv4Address.value, byteswapOnLittleEndian]
  split
  · exact (ones_byteswap (by decide)).symm
  · rfl

/-- Full bytes, one that is not full, and empty ones. -/
theorem sum_bytes (q r n : Nat) :
    ((List.range n).map fun j => if j < q then 8 else if j = q then r else 0).sum = if q < n then 8 * q + r else 8 * n := by
  induction n with
  | zero => rfl
  | succ n ih =>
    rw [List.range_succ, List.map_append, List.sum_append, ih, List.map_singleton, List.sum_singleton]
    split_ifs <;> omega

/-- The loop reads back the length of a netmask of IPv4. -/
theorem countBytes_subnetMast {host : Endian} {mask : IPv4Address} (hp : p < 2 ^ 32) (h : IPv4Address.subnetMast host p = .ok mask) :
    countBytes mask.addr = p := by
  have hlow : 2 ≤ p := Nat.not_lt.mp fun hlow => IPv4Address.subnetMast_short hlow mask h
  have hle : p ≤ 32 := by
    by_contra hbig
    have hshift : 32 ≤ sub64 32 p := by
      unfold sub64 wrap64
      omega
    unfold IPv4Address.subnetMast createMask at h
    dsimp only at h
    rw [if_pos hshift] at h
    cases h
  obtain ⟨m, hm, hvalue⟩ := IPv4Address.subnetMast_eq host hle hlow
  cases h.symm.trans hm
  rw [countBytes_value host, hvalue, ones_topMask hle]

/-- The loop over the bytes reads back the length of a netmask of IPv6. -/
theorem prefixLength_subnetMast {mask : IPv6Address} (h : IPv6Address.subnetMast p = .ok mask) : prefixLength mask.addr = p := by
  have hp : p < 128 := by
    by_contra hbig
    unfold IPv6Address.subnetMast at h
    rw [IPv6Address.createMask_byte] at h
    dsimp only [bind, Except.bind] at h
    rw [IPv6Address.assign, dif_neg (by omega)] at h
    cases h
  cases h.symm.trans (IPv6Address.subnetMast_eq hp)
  have hbytes : ∀ j : Fin 16, ones (if 0 ≤ j.val ∧ j < 0 + p / 8 then 0xff else if j = p / 8 then ~~~(~~~topMask 8 (p % 8)) else 0) =
      if j.val < p / 8 then 8 else if j.val = p / 8 then p % 8 else 0 := by
    intro j
    by_cases hfull : j.val < p / 8
    · rw [if_pos (by omega), if_pos hfull]
      decide
    · rw [if_neg (by omega), if_neg hfull]
      split
      · rw [BitVec.not_not]
        exact ones_topMask (Nat.le_of_lt (Nat.mod_lt p (by decide)))
      · exact ones_zero
  rw [prefixLength_eq]
  have hsum := sum_bytes (p / 8) (p % 8) 16
  rw [← List.map_coe_finRange_eq_range, List.map_map, if_pos (by omega)] at hsum
  simp only [hbytes]
  exact hsum.trans (Nat.div_add_mod p 8)

/-! ### The interfaces -/

/-- The family is asked for. -/
def Wanted (family : BitVec 16) (addr : IfAddress) : Prop := family = afUnspec ∨ family = familyOf addr

instance (family : BitVec 16) (addr : IfAddress) : Decidable (Wanted family addr) :=
  inferInstanceAs (Decidable (family = afUnspec ∨ family = familyOf addr))

/-- There is no address behind the pointer, or no netmask for an address of the family. -/
def Null (family : BitVec 16) (next : IfAddrs) : Prop :=
  match next.addr with
  | none => True
  | some (.inet port addr netmask) => Wanted family (.inet port addr netmask) ∧ netmask = none
  | some (.inet6 port addr netmask) => Wanted family (.inet6 port addr netmask) ∧ netmask = none
  | some (.other ..) => False

/-- The address of an interface, with the number of bits in its netmask. -/
def found (family : BitVec 16) (next : IfAddrs) : Option (IPAddress × Nat) :=
  next.addr.bind fun addr =>
    if Wanted family addr then
      match addr with
      | .inet port addr netmask => netmask.map fun mask => (.ipv4 ⟨IPv4Address.afInet, port, addr⟩, ones mask)
      | .inet6 port addr netmask => netmask.map fun mask =>
        (.ipv6 ⟨IPv6Address.afInet6, port, addr⟩, ((List.finRange 16).map fun i => ones (mask i)).sum)
      | .other .. => none
    else none

theorem interfaceAddress_eq (family : BitVec 16) (next : IfAddrs) :
    (interfaceAddress family next = none ↔ Null family next) ∧
      ∀ x, interfaceAddress family next = some x → x = found family next := by
  obtain ⟨name, addr⟩ := next
  cases addr with
  | none => exact ⟨iff_of_true rfl trivial, nofun⟩
  | some addr =>
    by_cases hwanted : Wanted family addr
    · have hskip : ¬(family ≠ afUnspec ∧ family ≠ familyOf addr) := fun h => hwanted.elim h.1 h.2
      unfold interfaceAddress found
      dsimp only [Option.bind_some]
      rw [if_neg hskip, if_pos hwanted]
      cases addr with
      | inet port addr netmask =>
        cases netmask with
        | none => exact ⟨iff_of_true rfl ⟨hwanted, rfl⟩, nofun⟩
        | some mask =>
          refine ⟨iff_of_false (Option.some_ne_none _) fun h => Option.some_ne_none _ h.2, ?_⟩
          rintro x ⟨⟩
          dsimp only [Option.map_some]
          rw [countBytes_eq]
      | inet6 port addr netmask =>
        cases netmask with
        | none => exact ⟨iff_of_true rfl ⟨hwanted, rfl⟩, nofun⟩
        | some mask =>
          refine ⟨iff_of_false (Option.some_ne_none _) fun h => Option.some_ne_none _ h.2, ?_⟩
          rintro x ⟨⟩
          dsimp only [Option.map_some]
          rw [prefixLength_eq]
      | other =>
        refine ⟨iff_of_false (Option.some_ne_none _) id, ?_⟩
        rintro x ⟨⟩
        rfl
    · have hskip : family ≠ afUnspec ∧ family ≠ familyOf addr := not_or.mp hwanted
      unfold interfaceAddress found
      dsimp only [Option.bind_some]
      rw [if_pos hskip, if_neg hwanted]
      refine ⟨iff_of_false (Option.some_ne_none _) ?_, ?_⟩
      · unfold Null
        cases addr with
        | inet => exact fun h => hwanted h.1
        | inet6 => exact fun h => hwanted h.1
        | other => exact id
      · rintro x ⟨⟩
        rfl

theorem interfaceMap_eq (family : BitVec 16) (l : List IfAddrs) :
    (interfaceMap family l = none ↔ ∃ next ∈ l, Null family next) ∧
      ∀ its, interfaceMap family l = some its → its = l.filterMap fun next => (found family next).map fun addr => (next.name, addr) := by
  induction l with
  | nil =>
    refine ⟨iff_of_false (Option.some_ne_none _) fun ⟨_, h, _⟩ => List.not_mem_nil h, ?_⟩
    rintro its ⟨⟩
    rfl
  | cons next l ih =>
    obtain ⟨hnull, hfound⟩ := interfaceAddress_eq family next
    rw [interfaceMap]
    cases hnext : interfaceAddress family next with
    | none => exact ⟨iff_of_true rfl ⟨next, List.mem_cons_self, hnull.mp hnext⟩, nofun⟩
    | some addr =>
      have hlive : ¬Null family next := fun h => Option.some_ne_none addr (hnext.symm.trans (hnull.mpr h))
      constructor
      · simp only [Option.bind_some, Option.map_eq_none_iff, ih.1, List.mem_cons, exists_eq_or_imp, hlive, false_or]
      · intro its hits
        obtain ⟨rest, hrest, rfl⟩ := Option.map_eq_some_iff.mp hits
        rw [List.filterMap_cons, ← hfound addr hnext, ih.2 rest hrest]
        cases addr <;> rfl

/-- What `equal_range` gives of the map. -/
theorem equalRange_eq (family : BitVec 16) (iface : Bytes) (l : List IfAddrs) :
    ((l.filterMap fun next => (found family next).map fun addr => (next.name, addr)).filter fun it => it.1 = iface).map (·.2) =
      (l.filter (·.name = iface)).filterMap (found family) := by
  induction l with
  | nil => rfl
  | cons next l ih =>
    by_cases hname : next.name = iface <;> cases hfound : found family next <;> simp [hname, hfound, ih]

theorem getInterfaceAddresses_none_iff (family : BitVec 16) (getifaddrs : Option (List IfAddrs)) (result : List (IPAddress × Nat))
    (iface : Bytes) : getInterfaceAddresses getifaddrs result iface family = none ↔
      iface ≠ [] ∧ iface ≠ ascii "*" ∧ ∃ l, getifaddrs = some l ∧ ∃ next ∈ l, Null family next := by
  unfold getInterfaceAddresses
  split
  case isTrue hany => exact iff_of_false (Option.some_ne_none _) fun h => hany.elim h.1 h.2.1
  case isFalse hplain =>
    obtain ⟨hempty, hstar⟩ := not_or.mp hplain
    rw [and_iff_right hempty, and_iff_right hstar]
    cases getifaddrs with
    | none => exact iff_of_false (Option.some_ne_none _) nofun
    | some l =>
      rw [Option.map_eq_none_iff, (interfaceMap_eq family l).1]
      exact ⟨fun h => ⟨l, rfl, h⟩, fun ⟨_, heq, h⟩ => Option.some.inj heq ▸ h⟩

/-- A call that fails has found nothing. -/
theorem getInterfaceAddresses_result {getifaddrs : Option (List IfAddrs)} {result : List (IPAddress × Nat)}
    {r : Bool × List (IPAddress × Nat)} (h : getInterfaceAddresses getifaddrs result iface family = some r) :
    r.1 = true ∨ r.2 = result := by
  unfold getInterfaceAddresses at h
  split at h
  · cases h
    exact .inl rfl
  · cases getifaddrs with
    | none =>
      cases h
      exact .inr rfl
    | some l =>
      obtain ⟨its, -, rfl⟩ := Option.map_eq_some_iff.mp h
      exact .inl rfl

/-- Of a named interface all addresses of the family are found, unless a null pointer is followed, which need not be one of that
    interface; and the lengths that are found with them are those from which their netmasks were made. -/
theorem interfaces_found (family : BitVec 16) (getifaddrs : Option (List IfAddrs)) (result : List (IPAddress × Nat)) (iface : Bytes) :
    (getInterfaceAddresses getifaddrs result iface family = none ↔
      iface ≠ [] ∧ iface ≠ ascii "*" ∧ ∃ l, getifaddrs = some l ∧ ∃ next ∈ l, Null family next) ∧
    (∀ l r, iface ≠ [] → iface ≠ ascii "*" → getInterfaceAddresses (some l) result iface family = some r →
      r = (true, result ++ (l.filter (·.name = iface)).filterMap (found family))) ∧
    (∀ host p mask, p < 2 ^ 32 → IPv4Address.subnetMast host p = .ok mask → ones mask.addr = p) ∧
    (∀ p mask, IPv6Address.subnetMast p = .ok mask → ((List.finRange 16).map fun i => ones (mask.addr i)).sum = p) := by
  refine ⟨getInterfaceAddresses_none_iff family getifaddrs result iface, fun l r hempty hstar hr => ?_,
    fun host p mask hp hmask => ?_, fun p mask hmask => ?_⟩
  · unfold getInterfaceAddresses at hr
    rw [if_neg (not_or.mpr ⟨hempty, hstar⟩)] at hr
    obtain ⟨its, hits, rfl⟩ := Option.map_eq_some_iff.mp hr
    refine congrArg (fun x => (true, result ++ x)) ?_
    rw [(interfaceMap_eq family l).2 its hits]
    exact equalRange_eq family iface l
  · exact (countBytes_eq mask.addr).symm.trans (countBytes_subnetMast hp hmask)
  · exact (prefixLength_eq mask.addr).symm.trans (prefixLength_subnetMast hmask)

end Address
end MyHttp

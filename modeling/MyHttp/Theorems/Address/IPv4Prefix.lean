import MyHttp.Address

/-! Networks of IPv4 addresses: the mask of `networdAddress` is that of the host part, and the two shortest prefixes shift
    too far. -/

namespace MyHttp

open Lib.Bits Lib.Machine

/-! ### Masks -/

/-- The mask has the bits below the prefix, where the shift leaves room for the sign. -/
theorem createMask_eq {w bits : Nat} (hbits : bits ≤ w) (h : w - bits < 31) (hw : w < 2 ^ 64) :
    createMask w bits = .ok (~~~topMask w bits) := by
  have hpow : 2 ^ (w - bits) < 2 ^ 31 := Nat.pow_lt_pow_right (by decide) h
  have hint : int32 (2 ^ (w - bits)) = ((2 ^ (w - bits) : Nat) : Int) := by
    have hcast : (2 : Int) ^ (w - bits) = ((2 ^ (w - bits) : Nat) : Int) := (Int.natCast_pow 2 _).symm
    rw [hcast, int32_eq (Int.natCast_nonneg _) (by omega)]
  have hpos : 0 < 2 ^ (w - bits) := Nat.two_pow_pos _
  have hpred : ((2 ^ (w - bits) : Nat) : Int) - 1 = ((2 ^ (w - bits) - 1 : Nat) : Int) := by omega
  unfold createMask
  dsimp only
  rw [sub64_of_le hbits hw, if_neg (by omega), hint, if_neg (by omega), hpred, BitVec.ofInt_natCast, ofNat_two_pow_sub_one]

theorem createMask_short : createMask 32 0 = .error .shift ∧ createMask 32 1 = .error .overflow := by
  decide

namespace IPv4Address

variable {host : Endian} {a n : IPv4Address} {p : Nat}

/-- The number of an address. -/
def value (host : Endian) (a : IPv4Address) : BitVec 32 := byteswapOnLittleEndian host a.addr

theorem value_make (host : Endian) (address : BitVec 32) (port : BitVec 16) :
    (make host address port).value host = address := by
  unfold value make byteswapOnLittleEndian
  dsimp only
  split
  · exact byteswap_byteswap (by decide)
  · rfl

/-- What the three functions are to return for a prefix. -/
structure PrefixArithmetic (host : Endian) (a : IPv4Address) (p : Nat) : Prop where
  network : ∃ n, a.networdAddress host p = .ok (some n) ∧ n.value host = a.value host &&& topMask 32 p ∧
    n.family = a.family ∧ n.port = a.port
  broadcast : ∃ b, a.broadcastAddress host p = .ok (some b) ∧ b.value host = a.value host ||| ~~~topMask 32 p ∧
    b.family = a.family ∧ b.port = a.port
  subnet : ∃ m, subnetMast host p = .ok m ∧ m.value host = topMask 32 p

theorem swap_and {x y : BitVec 32} : byteswapOnLittleEndian host (x &&& byteswapOnLittleEndian host y) =
    byteswapOnLittleEndian host x &&& y := by
  unfold byteswapOnLittleEndian
  split
  · rw [byteswap_and, byteswap_byteswap (by decide)]
  · rfl

theorem swap_or {x y : BitVec 32} : byteswapOnLittleEndian host (x ||| byteswapOnLittleEndian host y) =
    byteswapOnLittleEndian host x ||| y := by
  unfold byteswapOnLittleEndian
  split
  · rw [byteswap_or, byteswap_byteswap (by decide)]
  · rfl

theorem swap_not {x : BitVec 32} : byteswapOnLittleEndian host (~~~byteswapOnLittleEndian host x) = ~~~x := by
  unfold byteswapOnLittleEndian
  split
  · rw [byteswap_not (by decide), byteswap_byteswap (by decide)]
  · rfl

/-- The host part is taken where the network part is to be. -/
theorem networdAddress_eq (host : Endian) (a : IPv4Address) (hp : p ≤ 32) (hlow : 2 ≤ p) :
    ∃ n, a.networdAddress host p = .ok (some n) ∧ n.value host = a.value host &&& ~~~topMask 32 p ∧
      n.family = a.family ∧ n.port = a.port := by
  refine ⟨{ a with addr := a.addr &&& byteswapOnLittleEndian host (~~~topMask 32 p) }, ?_, swap_and, rfl, rfl⟩
  unfold networdAddress
  rw [if_neg (Nat.not_lt.mpr hp), createMask_eq hp (by omega) (by decide)]
  rfl

theorem broadcastAddress_eq (host : Endian) (a : IPv4Address) (hp : p ≤ 32) (hlow : 2 ≤ p) :
    ∃ b, a.broadcastAddress host p = .ok (some b) ∧ b.value host = a.value host ||| ~~~topMask 32 p ∧
      b.family = a.family ∧ b.port = a.port := by
  refine ⟨{ a with addr := a.addr ||| byteswapOnLittleEndian host (~~~topMask 32 p) }, ?_, swap_or, rfl, rfl⟩
  unfold broadcastAddress
  rw [if_neg (Nat.not_lt.mpr hp), createMask_eq hp (by omega) (by decide)]
  rfl

theorem subnetMast_eq (host : Endian) (hp : p ≤ 32) (hlow : 2 ≤ p) :
    ∃ m, subnetMast host p = .ok m ∧ m.value host = topMask 32 p := by
  refine ⟨⟨afInet, 0, ~~~byteswapOnLittleEndian host (~~~topMask 32 p)⟩, ?_, swap_not.trans BitVec.not_not⟩
  unfold subnetMast
  rw [createMask_eq hp (by omega) (by decide)]
  rfl

/-- Prefixes of no bit or one have no mask. -/
theorem subnetMast_short (hlow : p < 2) : ∀ m, subnetMast host p ≠ .ok m := by
  intro m hm
  unfold subnetMast at hm
  obtain rfl | rfl : p = 0 ∨ p = 1 := by omega
  · rw [createMask_short.1] at hm
    cases hm
  · rw [createMask_short.2] at hm
    cases hm

/-- The three functions are right exactly for the address zero and prefixes of at least two bits. -/
theorem ipv4_prefix_iff (host : Endian) (a : IPv4Address) (hp : p ≤ 32) :
    PrefixArithmetic host a p ↔ 2 ≤ p ∧ a.value host = 0 := by
  constructor
  · intro h
    obtain ⟨m, hm, -⟩ := h.subnet
    have hlow : 2 ≤ p := Nat.not_lt.mp fun hshort => subnetMast_short hshort m hm
    obtain ⟨n, hn, hvalue, -⟩ := h.network
    obtain ⟨n', hn', hvalue', -⟩ := networdAddress_eq host a hp hlow
    obtain rfl : n = n' := Option.some.inj (Except.ok.inj (hn.symm.trans hn'))
    exact ⟨hlow, (and_not_eq_and _).mp (hvalue'.symm.trans hvalue)⟩
  · rintro ⟨hlow, hzero⟩
    obtain ⟨n, hn, hvalue, hkept⟩ := networdAddress_eq host a hp hlow
    refine ⟨⟨n, hn, ?_, hkept⟩, broadcastAddress_eq host a hp hlow, subnetMast_eq host hp hlow⟩
    rw [hvalue]
    exact (and_not_eq_and _).mpr hzero

/-- The network of eight bits of `0.0.0.0`. -/
theorem ipv4_prefix_iff_any : PrefixArithmetic .little (make .little 0 8080) 8 :=
  (ipv4_prefix_iff .little (make .little 0 8080) (by decide)).mpr ⟨by decide, value_make ..⟩

/-- The network of `192.168.1.5/24` is `0.0.0.5`. -/
theorem host_part_kept : ¬∀ (host : Endian) (a : IPv4Address) (p : Nat), p ≤ 32 → PrefixArithmetic host a p := by
  intro h
  let a := make .little 0xc0a80105 80
  obtain ⟨n, hn, hvalue, -⟩ := (h .little a 24 (by decide)).network
  obtain ⟨n', hn', hvalue', -⟩ := networdAddress_eq .little a (p := 24) (by decide) (by decide)
  obtain rfl : n = n' := Option.some.inj (Except.ok.inj (hn.symm.trans hn'))
  have hzero : a.value .little = 0 := (and_not_eq_and _).mp (hvalue'.symm.trans hvalue)
  rw [value_make] at hzero
  exact absurd hzero (by decide)

end IPv4Address
end MyHttp

import MyHttp.Theorems.Address.IPv4Prefix

/-! Networks of IPv6 addresses. The byte in which the prefix ends is indexed also when it ends behind all bytes, and
    `networdAddress` keeps the host part of this byte and all bytes behind it. -/

namespace MyHttp
namespace IPv6Address

open Lib.Bits

variable {a : IPv6Address} {addr : Fin 16 → BitVec 8} {p i k count : Nat} {j : Fin 16}

/-- The byte of a bit, from the lowest one on. -/
def byteOf (k : Nat) : Fin 16 := place (15 - k / 8)

/-- The number of an address, whose first byte is the highest one. -/
def value (a : IPv6Address) : BitVec 128 := ofBits 128 fun k => (a.addr (byteOf k)).getLsbD (k % 8)

/-- What the three functions are to return for a prefix. -/
structure PrefixArithmetic (a : IPv6Address) (p : Nat) : Prop where
  network : ∃ n, a.networdAddress p = .ok n ∧ n.value = a.value &&& topMask 128 p
  broadcast : ∃ b, a.broadcastAddress p = .ok b ∧ b.value = a.value ||| ~~~topMask 128 p
  subnet : ∃ m, subnetMast p = .ok m ∧ m.value = topMask 128 p

/-! ### Bytes -/

theorem createMask_byte (p : Nat) : createMask 8 (p % 8) = .ok (~~~topMask 8 (p % 8)) :=
  createMask_eq (by omega) (by omega) (by decide)

theorem assign_eq (hi : i < 16) (f : BitVec 8 → BitVec 8) :
    assign addr i f = .ok fun j => if j = i then f (addr j) else addr j := by
  rw [assign, dif_pos hi]
  refine congrArg Except.ok (funext fun j => ?_)
  by_cases hj : j.val = i
  · subst hj
    rw [if_pos rfl]
    exact Function.update_self ..
  · rw [if_neg hj, Function.update_of_ne fun heq => hj (congrArg Fin.val heq)]

theorem fill_eq (hroom : i + count ≤ 16) :
    fill count i addr = .ok fun j => if i ≤ j ∧ j < i + count then 0xff else addr j := by
  induction count generalizing i addr with
  | zero =>
    refine congrArg Except.ok (funext fun j => (if_neg ?_).symm)
    omega
  | succ count ih =>
    rw [fill, assign_eq (by omega)]
    refine (ih (by omega)).trans (congrArg Except.ok (funext fun j => ?_))
    by_cases hfirst : j.val = i
    · rw [if_neg (by omega), if_pos hfirst, if_pos (by omega)]
    · rw [if_neg hfirst]
      exact if_congr (by omega) rfl rfl

/-! ### The three functions -/

theorem networdAddress_eq (a : IPv6Address) (hp : p < 128) : a.networdAddress p =
    .ok { a with addr := fun j => if j = p / 8 then a.addr j &&& ~~~topMask 8 (p % 8) else a.addr j } := by
  unfold networdAddress
  rw [createMask_byte]
  dsimp only [bind, Except.bind]
  rw [assign_eq (by omega)]
  rfl

theorem broadcastAddress_eq (a : IPv6Address) (hp : p < 128) : a.broadcastAddress p =
    .ok { a with
      addr := fun j =>
        if p / 8 + 1 ≤ j ∧ j < p / 8 + 1 + (16 - (p / 8 + 1)) then 0xff
        else if j = p / 8 then a.addr j ||| ~~~topMask 8 (p % 8) else a.addr j } := by
  unfold broadcastAddress
  rw [createMask_byte]
  dsimp only [bind, Except.bind]
  rw [assign_eq (by omega)]
  dsimp only
  rw [fill_eq (by omega)]
  rfl

theorem subnetMast_eq (hp : p < 128) : subnetMast p =
    .ok ⟨afInet6, 0, fun j =>
      if 0 ≤ j.val ∧ j < 0 + p / 8 then 0xff else if j = p / 8 then ~~~(~~~topMask 8 (p % 8)) else 0⟩ := by
  unfold subnetMast
  rw [createMask_byte]
  dsimp only [bind, Except.bind]
  rw [assign_eq (by omega)]
  dsimp only
  rw [fill_eq (by omega)]
  rfl

/-- A prefix of all bits ends behind the last byte. -/
theorem networdAddress_end (a : IPv6Address) : a.networdAddress 128 = .error .index := by
  unfold networdAddress
  rw [createMask_byte]
  rfl

/-! ### Bits -/

theorem byteOf_val (k : Nat) : (byteOf k).val = 15 - k / 8 := Nat.mod_eq_of_lt (by omega)

theorem getLsbD_value (hk : k < 128) : a.value.getLsbD k = (a.addr (byteOf k)).getLsbD (k % 8) := getLsbD_ofBits hk

theorem getLsbD_ones (k : Nat) : (0xff : BitVec 8).getLsbD (k % 8) = true := by
  have hones : (0xff : BitVec 8) = BitVec.allOnes 8 := rfl
  rw [hones, BitVec.getLsbD_allOnes]
  exact decide_eq_true (Nat.mod_lt k (by decide))

theorem getLsbD_hostBits (hk : k < 128) : (~~~topMask 128 p).getLsbD k = decide (k < 128 - p) := by
  rw [BitVec.getLsbD_not, getLsbD_topMask hk, decide_eq_true hk, Bool.true_and, ← decide_not, decide_eq_decide, Nat.not_le]

/-- In the byte in which the prefix ends the mask of the byte is that of the address. -/
theorem getLsbD_hostMask (hk : k < 128) (hat : 15 - k / 8 = p / 8) :
    (~~~topMask 8 (p % 8)).getLsbD (k % 8) = (~~~topMask 128 p).getLsbD k := by
  have hbit : k % 8 < 8 := Nat.mod_lt k (by decide)
  have hhost : k % 8 < 8 - p % 8 ↔ k < 128 - p := by omega
  rw [getLsbD_hostBits hk, BitVec.getLsbD_not, getLsbD_topMask hbit, decide_eq_true hbit, Bool.true_and, ← decide_not,
    decide_eq_decide, Nat.not_le]
  exact hhost

theorem broadcast_value (hp : p < 128) : ∃ b, a.broadcastAddress p = .ok b ∧ b.value = a.value ||| ~~~topMask 128 p := by
  refine ⟨_, broadcastAddress_eq a hp, BitVec.eq_of_getLsbD_eq fun k hk => ?_⟩
  rw [BitVec.getLsbD_or, getLsbD_value hk, getLsbD_value hk, getLsbD_hostBits hk]
  dsimp only
  rw [byteOf_val]
  by_cases hbehind : p / 8 + 1 ≤ 15 - k / 8 ∧ 15 - k / 8 < p / 8 + 1 + (16 - (p / 8 + 1))
  · rw [if_pos hbehind, getLsbD_ones, decide_eq_true (by omega), Bool.or_true]
  · rw [if_neg hbehind]
    by_cases hat : 15 - k / 8 = p / 8
    · rw [if_pos hat, BitVec.getLsbD_or, getLsbD_hostMask hk hat, getLsbD_hostBits hk]
    · rw [if_neg hat, decide_eq_false (by omega), Bool.or_false]

theorem subnet_value (hp : p < 128) : ∃ m, subnetMast p = .ok m ∧ m.value = topMask 128 p := by
  refine ⟨_, subnetMast_eq hp, BitVec.eq_of_getLsbD_eq fun k hk => ?_⟩
  rw [getLsbD_value hk, getLsbD_topMask hk]
  dsimp only
  rw [byteOf_val]
  by_cases hbefore : 0 ≤ 15 - k / 8 ∧ 15 - k / 8 < 0 + p / 8
  · rw [if_pos hbefore, getLsbD_ones, decide_eq_true (by omega)]
  · rw [if_neg hbefore]
    by_cases hat : 15 - k / 8 = p / 8
    · rw [if_pos hat, BitVec.not_not, getLsbD_topMask (Nat.mod_lt k (by decide))]
      exact decide_eq_decide.mpr (by omega)
    · rw [if_neg hat, decide_eq_false (by omega)]
      exact BitVec.getLsbD_zero

/-- The bit of the network that is kept is one of the host part from the byte on in which the prefix ends. -/
theorem networdAddress_bit (hp : p < 128) (hk : k < 128) :
    ∃ n, a.networdAddress p = .ok n ∧ n.value.getLsbD k =
      (a.value.getLsbD k && (decide (k < 128 - p) || decide (15 - k / 8 ≠ p / 8))) := by
  refine ⟨_, networdAddress_eq a hp, ?_⟩
  rw [getLsbD_value hk, getLsbD_value hk]
  dsimp only
  rw [byteOf_val]
  by_cases hat : 15 - k / 8 = p / 8
  · rw [if_pos hat, BitVec.getLsbD_and, getLsbD_hostMask hk hat, getLsbD_hostBits hk, decide_eq_false (not_not_intro hat),
      Bool.or_false]
  · rw [if_neg hat, decide_eq_true hat, Bool.or_true, Bool.and_true]

/-- The network part is right exactly when there is nothing else from the byte in which the prefix ends on. -/
theorem network_value_iff (hp : p < 128) :
    (∃ n, a.networdAddress p = .ok n ∧ n.value = a.value &&& topMask 128 p) ↔ ∀ j : Fin 16, p / 8 ≤ j → a.addr j = 0 := by
  constructor
  · rintro ⟨n, hn, hvalue⟩ j hj
    refine BitVec.eq_of_getLsbD_eq fun b hb => ?_
    have hk : 8 * (15 - j.val) + b < 128 := by omega
    have hbyte : byteOf (8 * (15 - j.val) + b) = j := Fin.ext ((byteOf_val _).trans (by omega))
    have hplace : (8 * (15 - j.val) + b) % 8 = b := by omega
    obtain ⟨n', hn', hbit⟩ := networdAddress_bit (a := a) hp hk
    obtain rfl : n = n' := Except.ok.inj (hn.symm.trans hn')
    rw [hvalue, BitVec.getLsbD_and, getLsbD_topMask hk, getLsbD_value hk, hbyte, hplace] at hbit
    refine Eq.trans ?_ BitVec.getLsbD_zero.symm
    cases hset : (a.addr j).getLsbD b
    · rfl
    · rw [hset, Bool.true_and, Bool.true_and, ← Bool.decide_or, decide_eq_decide] at hbit
      exact absurd hbit (by omega)
  · intro hzero
    obtain ⟨n, hn⟩ : ∃ n, a.networdAddress p = .ok n := ⟨_, networdAddress_eq a hp⟩
    refine ⟨n, hn, BitVec.eq_of_getLsbD_eq fun k hk => ?_⟩
    obtain ⟨n', hn', hbit⟩ := networdAddress_bit (a := a) hp hk
    obtain rfl : n = n' := Except.ok.inj (hn.symm.trans hn')
    rw [hbit, BitVec.getLsbD_and, getLsbD_topMask hk]
    by_cases hbehind : p / 8 ≤ 15 - k / 8
    · have hbyte : a.addr (byteOf k) = 0#8 := hzero _ (hbehind.trans_eq (byteOf_val k).symm)
      rw [getLsbD_value hk, hbyte, BitVec.getLsbD_zero, Bool.false_and, Bool.false_and]
    · have hafter : 15 - k / 8 ≠ p / 8 := by omega
      have htop : 128 - p ≤ k := by omega
      rw [decide_eq_true hafter, decide_eq_true htop, Bool.or_true]

/-- The three functions are right exactly when the prefix leaves a bit, and the bytes from the one in which it ends on are
    zero. -/
theorem ipv6_prefix_iff (a : IPv6Address) (hp : p ≤ 128) :
    PrefixArithmetic a p ↔ p < 128 ∧ ∀ j : Fin 16, p / 8 ≤ j → a.addr j = 0 := by
  constructor
  · intro h
    have hlt : p < 128 := by
      refine Nat.lt_of_le_of_ne hp fun heq => ?_
      subst heq
      obtain ⟨n, hn, -⟩ := h.network
      cases (networdAddress_end a).symm.trans hn
    exact ⟨hlt, (network_value_iff hlt).mp h.network⟩
  · rintro ⟨hlt, hzero⟩
    exact ⟨(network_value_iff hlt).mpr hzero, broadcast_value hlt, subnet_value hlt⟩

/-- The address `::` has the network of 64 bits. -/
theorem ipv6_prefix_iff_any : PrefixArithmetic (make .little (fun _ => 0) 80) 64 :=
  (ipv6_prefix_iff _ (by decide)).mpr ⟨by decide, fun _ _ => rfl⟩

/-- The network of `2001:db8::5/64` has the last byte of the address. -/
theorem last_byte_kept : ¬∀ (a : IPv6Address) (p : Nat), p ≤ 128 → PrefixArithmetic a p := by
  intro h
  let a := make .little (fun j => if j.val = 15 then 5 else 0) 80
  obtain ⟨n, hn, hvalue⟩ := (h a 64 (by decide)).network
  have hlast := (network_value_iff (a := a) (p := 64) (by decide)).mp ⟨n, hn, hvalue⟩ 15 (by decide)
  exact absurd hlast (by decide)

end IPv6Address
end MyHttp

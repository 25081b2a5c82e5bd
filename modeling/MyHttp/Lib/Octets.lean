import Mathlib.Data.Nat.Size
import Mathlib.Tactic.Ring
import Mathlib.Tactic.SplitIfs

/-! Numbers as rows of bytes, the lowest first, and in groups of seven bits. -/

namespace Lib.Octets

variable {n v w i k m : Nat} {l r : List UInt8} {b : UInt8}

/-- The `n` lowest bytes of a number. -/
def toBytes : Nat → Nat → List UInt8
  | 0, _ => []
  | n + 1, v => UInt8.ofNat v :: toBytes n (v / 256)

def ofBytes : List UInt8 → Nat
  | [] => 0
  | b :: l => b.toNat + 256 * ofBytes l

@[simp] theorem length_toBytes : (toBytes n v).length = n := by
  induction n generalizing v with
  | zero => rfl
  | succ n ih => rw [toBytes, List.length_cons, ih]

theorem ofBytes_toBytes : ofBytes (toBytes n v) = v % 256 ^ n := by
  induction n generalizing v with
  | zero => rw [Nat.pow_zero, Nat.mod_one]; rfl
  | succ n ih =>
    have hbyte : (UInt8.ofNat v).toNat = v % 256 := UInt8.toNat_ofNat'
    rw [toBytes, ofBytes, ih, hbyte, Nat.pow_succ', Nat.mod_mul]

theorem ofBytes_lt : ofBytes l < 256 ^ l.length := by
  induction l with
  | nil => exact Nat.one_pos
  | cons b l ih =>
    have hb := b.toNat_lt
    rw [ofBytes, List.length_cons, Nat.pow_succ]
    omega

theorem toBytes_ofBytes : toBytes l.length (ofBytes l) = l := by
  induction l with
  | nil => rfl
  | cons b l ih =>
    have hb : b.toNat < 256 := b.toNat_lt
    have hhead : UInt8.ofNat (b.toNat + 256 * ofBytes l) = b := by
      refine UInt8.toNat_inj.mp ?_
      rw [UInt8.toNat_ofNat', Nat.add_mul_mod_self_left, Nat.mod_eq_of_lt hb]
    have htail : (b.toNat + 256 * ofBytes l) / 256 = ofBytes l := by omega
    rw [List.length_cons, ofBytes, toBytes, hhead, htail, ih]

theorem ofBytes_append : ofBytes (l ++ r) = ofBytes l + 256 ^ l.length * ofBytes r := by
  induction l with
  | nil => rw [List.nil_append, List.length_nil, Nat.pow_zero, Nat.one_mul]; exact (Nat.zero_add _).symm
  | cons b l ih =>
    rw [List.cons_append, ofBytes, ofBytes, ih, List.length_cons]
    ring

/-- The highest byte bounds a number from below. -/
theorem pow_le_ofBytes (hb : b ≠ 0) : 256 ^ l.length ≤ ofBytes (l ++ [b]) := by
  have hpos : 0 < b.toNat := Nat.pos_of_ne_zero fun hzero => hb (UInt8.toNat_inj.mp hzero)
  rw [ofBytes_append, ofBytes, ofBytes, Nat.mul_zero, Nat.add_zero]
  exact (Nat.le_mul_of_pos_right _ hpos).trans (Nat.le_add_left ..)

/-! ### Groups of seven bits -/

/-- The number of groups that hold `v`, at least one. -/
def groupCount (v : Nat) : Nat := max 1 ((v.size + 6) / 7)

theorem groupCount_small (h : v < 128) : groupCount v = 1 := by
  have hsize : v.size ≤ 7 := Nat.size_le.mpr h
  unfold groupCount
  omega

theorem groupCount_large (h : 128 ≤ v) : groupCount v = groupCount (v / 128) + 1 := by
  have hpos : 0 < v / 128 := Nat.div_pos h (by omega)
  have hsize : v.size = (v / 128).size + 7 := by
    refine Nat.le_antisymm (Nat.size_le.mpr ?_) ?_
    · have hlt : v / 128 < 2 ^ (v / 128).size := Nat.lt_size_self _
      rw [Nat.pow_add]
      omega
    · have hge : 2 ^ ((v / 128).size - 1) ≤ v / 128 := Nat.lt_size.mp (by have := Nat.size_pos.mpr hpos; omega)
      have hlarge : 2 ^ ((v / 128).size - 1 + 7) ≤ v := by
        rw [Nat.pow_add]
        omega
      have hlt := Nat.lt_size.mpr hlarge
      omega
  have hone : 1 ≤ (v / 128).size := Nat.size_pos.mpr hpos
  unfold groupCount
  omega

theorem groupCount_pos : 1 ≤ groupCount v := Nat.le_max_left ..

/-- Bits put in above the lowest `i`. -/
theorem or_shiftLeft (h : v < 2 ^ i) : v ||| m <<< i = v + m * 2 ^ i := by
  rw [Nat.shiftLeft_eq, Nat.or_comm, Nat.mul_comm, ← Nat.two_pow_add_eq_or_of_lt h, Nat.add_comm]

/-- The next group of a number. -/
theorem mod_next : v % 2 ^ i + v / 2 ^ i % 128 * 2 ^ i = v % 2 ^ (i + 7) := by
  rw [Nat.pow_add, Nat.mod_mul, Nat.mul_comm]

/-! ### Signed numbers -/

/-- The numbering 0, -1, 1, -2, 2 of the integers. -/
def zigzag (z : Int) : Nat := if z < 0 then (-2 * z - 1).toNat else (2 * z).toNat

def unzigzag (n : Nat) : Int := if n % 2 = 0 then n / 2 else -(n / 2) - 1

theorem unzigzag_zigzag {z : Int} : unzigzag (zigzag z) = z := by
  unfold zigzag unzigzag
  split_ifs <;> omega

theorem zigzag_unzigzag : zigzag (unzigzag n) = n := by
  unfold zigzag unzigzag
  split_ifs <;> omega

/-- Half a word, flipped where its lowest bit is set. -/
theorem xor_mask (x : BitVec w) (hw : 1 < w) : (x >>> 1 ^^^ -(x &&& 1#w)).toNat =
    if x.toNat % 2 = 0 then x.toNat / 2 else 2 ^ w - 1 - x.toNat / 2 := by
  have hone : (1#w).toNat = 1 := by
    rw [BitVec.toNat_ofNat]
    exact Nat.mod_eq_of_lt (Nat.one_lt_two_pow (by omega))
  have hand : (x &&& 1#w).toNat = x.toNat % 2 := by
    rw [BitVec.toNat_and, hone]
    exact Nat.and_two_pow_sub_one_eq_mod x.toNat 1
  have hshift : (x >>> 1).toNat = x.toNat / 2 := by
    rw [BitVec.toNat_ushiftRight]
    exact Nat.shiftRight_eq_div_pow _ 1
  rcases Nat.mod_two_eq_zero_or_one x.toNat with heven | hodd
  · have hbit : x &&& 1#w = 0#w := BitVec.eq_of_toNat_eq (hand.trans heven)
    rw [if_pos heven, hbit, BitVec.neg_zero, BitVec.xor_zero, hshift]
  · have hbit : x &&& 1#w = 1#w := BitVec.eq_of_toNat_eq ((hand.trans hodd).trans hone.symm)
    rw [if_neg (by omega), hbit, BitVec.neg_one_eq_allOnes, BitVec.xor_allOnes, BitVec.toNat_not, hshift]

end Lib.Octets

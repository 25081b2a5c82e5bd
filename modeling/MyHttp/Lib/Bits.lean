import Mathlib.Algebra.Group.Nat.Defs
import Mathlib.Data.List.GetD

/-! Words as bit vectors: the bytes of a word in the other order, and the masks of the bits at either end. -/

namespace Lib.Bits

variable {w k i : Nat} {x y : BitVec w}

/-- The word with these bits, the lowest one first. -/
def ofBits (w : Nat) (bit : Nat → Bool) : BitVec w := (BitVec.ofBoolListLE ((List.range w).map bit)).setWidth w

theorem getLsbD_ofBits {bit : Nat → Bool} (h : i < w) : (ofBits w bit).getLsbD i = bit i := by
  have hlist : i < ((List.range w).map bit).length := by rwa [List.length_map, List.length_range]
  rw [ofBits, BitVec.getLsbD_setWidth, decide_eq_true h, Bool.true_and, BitVec.getLsbD_ofBoolListLE,
    List.getD_eq_getElem _ _ hlist, List.getElem_map, List.getElem_range]

/-- The bytes in reverse, for a width of whole bytes. -/
def byteswap (x : BitVec w) : BitVec w := ofBits w fun i => x.getLsbD (w - 8 * (i / 8 + 1) + i % 8)

theorem getLsbD_byteswap (h : i < w) : (byteswap x).getLsbD i = x.getLsbD (w - 8 * (i / 8 + 1) + i % 8) :=
  getLsbD_ofBits h

theorem byteswap_and : byteswap (x &&& y) = byteswap x &&& byteswap y := by
  refine BitVec.eq_of_getLsbD_eq fun i hi => ?_
  rw [BitVec.getLsbD_and, getLsbD_byteswap hi, getLsbD_byteswap hi, getLsbD_byteswap hi, BitVec.getLsbD_and]

theorem byteswap_or : byteswap (x ||| y) = byteswap x ||| byteswap y := by
  refine BitVec.eq_of_getLsbD_eq fun i hi => ?_
  rw [BitVec.getLsbD_or, getLsbD_byteswap hi, getLsbD_byteswap hi, getLsbD_byteswap hi, BitVec.getLsbD_or]

theorem byteswap_not (hw : 8 ∣ w) : byteswap (~~~x) = ~~~byteswap x := by
  refine BitVec.eq_of_getLsbD_eq fun i hi => ?_
  have hplace : w - 8 * (i / 8 + 1) + i % 8 < w := by omega
  rw [BitVec.getLsbD_not, getLsbD_byteswap hi, getLsbD_byteswap hi, BitVec.getLsbD_not, decide_eq_true hi,
    decide_eq_true hplace]

theorem byteswap_byteswap (hw : 8 ∣ w) : byteswap (byteswap x) = x := by
  refine BitVec.eq_of_getLsbD_eq fun i hi => ?_
  have hplace : w - 8 * (i / 8 + 1) + i % 8 < w := by omega
  have hback : w - 8 * ((w - 8 * (i / 8 + 1) + i % 8) / 8 + 1) + (w - 8 * (i / 8 + 1) + i % 8) % 8 = i := by omega
  rw [getLsbD_byteswap hi, getLsbD_byteswap hplace, hback]

theorem byteswap_zero : byteswap (0#w) = 0#w := by
  refine BitVec.eq_of_getLsbD_eq fun i hi => ?_
  rw [getLsbD_byteswap hi, BitVec.getLsbD_zero, BitVec.getLsbD_zero]

theorem byteswap_append (x y : BitVec 8) : byteswap (x ++ y) = y ++ x := by
  refine BitVec.eq_of_getLsbD_eq fun i hi => ?_
  rw [getLsbD_byteswap hi, BitVec.getLsbD_append, BitVec.getLsbD_append]
  by_cases hlow : i < 8
  · have hhigh : ¬8 + 8 - 8 * (i / 8 + 1) + i % 8 < 8 := by omega
    rw [if_pos hlow, if_neg hhigh]
    exact congrArg x.getLsbD (by omega)
  · have hback : 8 + 8 - 8 * (i / 8 + 1) + i % 8 < 8 := by omega
    rw [if_neg hlow, if_pos hback]
    exact congrArg y.getLsbD (by omega)

theorem append_inj {v : Nat} {x x' : BitVec v} {y y' : BitVec w} (h : x ++ y = x' ++ y') : x = x' ∧ y = y' := by
  constructor
  · refine BitVec.eq_of_getLsbD_eq fun i hi => ?_
    have hbit := congrArg (·.getLsbD (i + w)) h
    simpa only [BitVec.getLsbD_append, Nat.not_lt.mpr (Nat.le_add_left w i), if_false, Nat.add_sub_cancel] using hbit
  · refine BitVec.eq_of_getLsbD_eq fun i hi => ?_
    have hbit := congrArg (·.getLsbD i) h
    simpa only [BitVec.getLsbD_append, hi, if_true] using hbit

/-- The mask whose top `k` bits are set. -/
def topMask (w k : Nat) : BitVec w := BitVec.allOnes w <<< (w - k)

theorem getLsbD_topMask (h : i < w) : (topMask w k).getLsbD i = decide (w - k ≤ i) := by
  rw [topMask, BitVec.getLsbD_shiftLeft, BitVec.getLsbD_allOnes, decide_eq_true h, Bool.true_and]
  have hleft : i - (w - k) < w := Nat.lt_of_le_of_lt (Nat.sub_le ..) h
  rw [decide_eq_true hleft, Bool.and_true, ← decide_not, decide_eq_decide, Nat.not_lt]

/-- The number below a power of two has its lowest bits set, which are those below the top mask. -/
theorem ofNat_two_pow_sub_one : BitVec.ofNat w (2 ^ (w - k) - 1) = ~~~topMask w k := by
  refine BitVec.eq_of_getLsbD_eq fun i hi => ?_
  rw [BitVec.getLsbD_not, getLsbD_topMask hi, BitVec.getLsbD_ofNat, Nat.testBit_two_pow_sub_one, decide_eq_true hi,
    Bool.true_and, Bool.true_and, ← decide_not, decide_eq_decide, Nat.not_le]

/-- The parts of a word under a mask and under its complement are the same only when the word is zero. -/
theorem and_not_eq_and (m : BitVec w) : x &&& ~~~m = x &&& m ↔ x = 0#w := by
  constructor
  · intro h
    refine BitVec.eq_of_getLsbD_eq fun i hi => ?_
    have hbit := congrArg (·.getLsbD i) h
    rw [BitVec.getLsbD_and, BitVec.getLsbD_and, BitVec.getLsbD_not, decide_eq_true hi, Bool.true_and] at hbit
    rw [BitVec.getLsbD_zero]
    cases hx : x.getLsbD i
    · rfl
    · rw [hx] at hbit
      cases hm : m.getLsbD i <;> rw [hm] at hbit <;> cases hbit
  · rintro rfl
    rw [BitVec.zero_and, BitVec.zero_and]

end Lib.Bits

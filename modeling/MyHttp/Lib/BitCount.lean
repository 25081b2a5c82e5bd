import MyHttp.Lib.Bits
import Mathlib.Data.Finset.Card
import Mathlib.Data.Nat.Factorization.Basic
import Mathlib.Order.Interval.Finset.Nat

/-! The number of bits that are set in a word, and the loop that clears the lowest one until none is left. -/

namespace Lib.Bits

variable {w k i : Nat} {x y : BitVec w}

def ones (x : BitVec w) : Nat := ((Finset.range w).filter fun i => x.getLsbD i).card

/-- The loop that clears the lowest bit, with a bound on its rounds. -/
def clearRounds : Nat → BitVec w → Nat
  | 0, _ => 0
  | n + 1, x => if x = 0#w then 0 else clearRounds n (x &&& (x - 1)) + 1

theorem ones_le (x : BitVec w) : ones x ≤ w := (Finset.card_filter_le _ _).trans_eq (Finset.card_range w)

theorem ones_zero : ones (0#w) = 0 := by
  rw [ones, Finset.card_eq_zero, Finset.filter_eq_empty_iff]
  intro i _
  rw [BitVec.getLsbD_zero]
  exact Bool.false_ne_true

theorem testBit_pred (k q i : Nat) :
    (2 ^ k * (2 * q + 1) - 1).testBit i = if i < k then true else if i = k then false else (2 ^ k * (2 * q + 1)).testBit i := by
  have hpos : 0 < 2 ^ k := Nat.two_pow_pos k
  have hsplit : 2 ^ k * (2 * q + 1) - 1 = 2 ^ k * (2 * q) + (2 ^ k - 1) := by
    rw [Nat.mul_add, Nat.mul_one, Nat.add_sub_assoc hpos]
  rw [hsplit, Nat.testBit_two_pow_mul_add _ (Nat.sub_lt hpos Nat.one_pos), Nat.testBit_two_pow_mul]
  by_cases hlow : i < k
  · rw [if_pos hlow, if_pos hlow, Nat.testBit_two_pow_sub_one, decide_eq_true hlow]
  · rw [if_neg hlow, if_neg hlow, decide_eq_true (Nat.not_lt.mp hlow), Bool.true_and]
    by_cases heq : i = k
    · rw [if_pos heq, heq, Nat.sub_self, Nat.testBit_zero]
      simp
    · obtain ⟨d, hd⟩ : ∃ d, i - k = d + 1 := ⟨i - k - 1, by omega⟩
      rw [if_neg heq, hd, Nat.testBit_succ, Nat.testBit_succ]
      congr 1
      omega

/-- A word that is not zero has a lowest bit, and subtracting one changes that bit and those below it. -/
theorem clear_lowest (hx : x ≠ 0#w) :
    ∃ k < w, x.getLsbD k = true ∧ ∀ i, (x &&& (x - 1)).getLsbD i = (x.getLsbD i && decide (i ≠ k)) := by
  have hne : x.toNat ≠ 0 := fun h => hx (BitVec.eq_of_toNat_eq h)
  obtain ⟨k, m, ⟨q, rfl⟩, heq⟩ := Nat.exists_eq_two_pow_mul_odd hne
  have hbit : ∀ i, x.getLsbD i = (2 ^ k * (2 * q + 1)).testBit i := fun i => by rw [← BitVec.testBit_toNat, heq]
  have hself : x.getLsbD k = true := by
    rw [hbit, Nat.testBit_two_pow_mul, decide_eq_true (Nat.le_refl k), Nat.sub_self, Nat.testBit_zero]
    simp
  have hpred : ∀ i, (x - 1).getLsbD i = (2 ^ k * (2 * q + 1) - 1).testBit i := by
    have hw : 0 < w := Nat.pos_of_ne_zero fun h => by
      subst h
      exact hx (BitVec.eq_of_toNat_eq (by omega))
    have hone : (1 : BitVec w).toNat = 1 := BitVec.toNat_one hw
    have hle : (1 : BitVec w) ≤ x := by
      rw [BitVec.le_def, hone]
      exact Nat.one_le_iff_ne_zero.mpr hne
    intro i
    rw [← BitVec.testBit_toNat, BitVec.toNat_sub_of_le hle, hone, heq]
  refine ⟨k, BitVec.lt_of_getLsbD hself, hself, fun i => ?_⟩
  rw [BitVec.getLsbD_and, hpred, testBit_pred, hbit]
  by_cases hlow : i < k
  · rw [if_pos hlow, Nat.testBit_two_pow_mul, decide_eq_false (Nat.not_le.mpr hlow)]
    rfl
  · rw [if_neg hlow]
    by_cases hik : i = k
    · simp [hik]
    · rw [if_neg hik, decide_eq_true hik, Bool.and_self, Bool.and_true]

theorem ones_clear (hx : x ≠ 0#w) : ones x = ones (x &&& (x - 1)) + 1 := by
  obtain ⟨k, hk, hself, hclear⟩ := clear_lowest hx
  have herase : ((Finset.range w).filter fun i => (x &&& (x - 1)).getLsbD i) =
      ((Finset.range w).filter fun i => x.getLsbD i).erase k := by
    ext i
    rw [Finset.mem_filter, Finset.mem_erase, Finset.mem_filter, hclear, Bool.and_eq_true, decide_eq_true_iff]
    tauto
  rw [ones, ones, herase, Finset.card_erase_add_one (Finset.mem_filter.mpr ⟨Finset.mem_range.mpr hk, hself⟩)]

/-- The loop counts the bits when its bound is no less than their number. -/
theorem clearRounds_eq {n : Nat} (h : ones x ≤ n) : clearRounds n x = ones x := by
  induction n generalizing x with
  | zero => exact (Nat.le_zero.mp h).symm
  | succ n ih =>
    rw [clearRounds]
    split
    case isTrue hzero => rw [hzero, ones_zero]
    case isFalse hx =>
      rw [ones_clear hx] at h ⊢
      rw [ih (Nat.le_of_succ_le_succ h)]

theorem ones_topMask (hk : k ≤ w) : ones (topMask w k) = k := by
  have hfilter : ((Finset.range w).filter fun i => (topMask w k).getLsbD i) = Finset.Ico (w - k) w := by
    ext i
    rw [Finset.mem_filter, Finset.mem_range, Finset.mem_Ico]
    constructor
    · rintro ⟨hi, hbit⟩
      rw [getLsbD_topMask hi] at hbit
      exact ⟨of_decide_eq_true hbit, hi⟩
    · rintro ⟨hlow, hi⟩
      exact ⟨hi, by rw [getLsbD_topMask hi]; exact decide_eq_true hlow⟩
  rw [ones, hfilter, Nat.card_Ico]
  omega

theorem ones_byteswap (hw : 8 ∣ w) : ones (byteswap x) = ones x := by
  have hplace : ∀ i < w, w - 8 * (i / 8 + 1) + i % 8 < w := fun i hi => by omega
  have hback : ∀ i < w, w - 8 * ((w - 8 * (i / 8 + 1) + i % 8) / 8 + 1) + (w - 8 * (i / 8 + 1) + i % 8) % 8 = i :=
    fun i hi => by omega
  have hmem : ∀ y : BitVec w, ∀ i, i ∈ (Finset.range w).filter (fun i => (byteswap y).getLsbD i) →
      w - 8 * (i / 8 + 1) + i % 8 ∈ (Finset.range w).filter fun i => y.getLsbD i := by
    intro y i hi
    obtain ⟨hi, hbit⟩ := Finset.mem_filter.mp hi
    have hlt := Finset.mem_range.mp hi
    rw [getLsbD_byteswap hlt] at hbit
    exact Finset.mem_filter.mpr ⟨Finset.mem_range.mpr (hplace i hlt), hbit⟩
  have hlt : ∀ y : BitVec w, ∀ i ∈ (Finset.range w).filter (fun i => y.getLsbD i), i < w := fun y i hi =>
    Finset.mem_range.mp (Finset.mem_filter.mp hi).1
  refine Finset.card_nbij' (fun i => w - 8 * (i / 8 + 1) + i % 8) (fun i => w - 8 * (i / 8 + 1) + i % 8) (hmem x) ?_
    (fun i hi => hback i (hlt _ i hi)) fun i hi => hback i (hlt _ i hi)
  intro i hi
  have hswap := hmem (byteswap x) i
  rw [byteswap_byteswap hw] at hswap
  exact hswap hi

end Lib.Bits

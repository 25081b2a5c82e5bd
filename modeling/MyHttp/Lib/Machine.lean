import Mathlib.Data.Int.ModEq

/-! Machine integers as numbers: the conversions between the widths, and when they change the value. -/

namespace Lib.Machine

/-- The largest `uint64_t`, written `~0ull`. -/
def maxUint64 : Nat := 2 ^ 64 - 1

/-- A `uint64_t` sum. -/
def wrap64 (n : Nat) : Nat := n % 2 ^ 64

/-- A `uint64_t` difference. -/
def sub64 (a b : Nat) : Nat := wrap64 (a + (2 ^ 64 - b % 2 ^ 64))

/-- The conversion to `uint64_t`. -/
def uint64 (n : Int) : Nat := (n % 2 ^ 64).toNat

/-- The conversion to `int`. -/
def int32 (n : Int) : Int := n.bmod (2 ^ 32)

theorem wrap64_of_lt {n : Nat} (h : n < 2 ^ 64) : wrap64 n = n := Nat.mod_eq_of_lt h

theorem sub64_of_le {a b : Nat} (h : b ≤ a) (ha : a < 2 ^ 64) : sub64 a b = a - b := by
  rw [sub64, Nat.mod_eq_of_lt (h.trans_lt ha), wrap64]
  omega

theorem uint64_of_nonneg {n : Int} (h₀ : 0 ≤ n) (h₁ : n < 2 ^ 64) : uint64 n = n.toNat := by
  rw [uint64, Int.emod_eq_of_lt h₀ h₁]

theorem uint64_of_neg {n : Int} (h₀ : n < 0) (h₁ : -2 ^ 64 ≤ n) : uint64 n = 2 ^ 64 - (-n).toNat := by
  have he : n % 2 ^ 64 = n + 2 ^ 64 := by omega
  rw [uint64, he]
  omega

/-- A negative number taken from a `uint64_t` is added. -/
theorem sub64_uint64 (a : Nat) {n : Int} (h₀ : n < 0) (h₁ : -2 ^ 63 ≤ n) : sub64 a (uint64 n) = wrap64 (a + (-n).toNat) := by
  have hlt : 2 ^ 64 - (-n).toNat < 2 ^ 64 := by omega
  have hback : 2 ^ 64 - (2 ^ 64 - (-n).toNat) = (-n).toNat := Nat.sub_sub_self (by omega)
  rw [uint64_of_neg h₀ (by omega), sub64, Nat.mod_eq_of_lt hlt, hback]

theorem wrap64_lt (n : Nat) : wrap64 n < 2 ^ 64 := Nat.mod_lt _ (by decide)

theorem int32_le {n : Int} (h : 0 ≤ n) : int32 n ≤ n := by
  have hmod : n % (2 ^ 32 : Nat) ≤ n := by omega
  simp only [int32, Int.bmod]
  split <;> omega

theorem int32_eq {n : Int} (h₀ : 0 ≤ n) (h₁ : n < 2 ^ 31) : int32 n = n := by
  have hmod : n % (2 ^ 32 : Nat) = n := Int.emod_eq_of_lt h₀ (by omega)
  simp only [int32, Int.bmod, hmod]
  split <;> omega

/-- The numbers that become `v` as an `int`. -/
theorem int32_iff (n v : Int) : int32 n = v ↔ -2 ^ 31 ≤ v ∧ v < 2 ^ 31 ∧ 2 ^ 32 ∣ v - n := by
  have h := Int.bmod_eq_iff (a := n) (b := 2 ^ 32) (c := v)
  have hcast : ((2 ^ 32 : Nat) : Int) = 2 ^ 32 := rfl
  rw [hcast] at h
  unfold int32
  rw [h (by omega)]
  omega

end Lib.Machine

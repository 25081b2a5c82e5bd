import MyHttp.IOManager.Idle
import MyHttp.Theorems.Timer

/-! The wait of `idle` has its bounds unless the timeout is a negative number as an `int`. -/

namespace MyHttp
namespace IOManager

open Lib.Machine

variable {nextTimeout retries : Nat} {w : Int}

/-! ### The clamp -/

/-- The sign of the low half. -/
theorem int32_nonneg_iff (n : Nat) : 0 ≤ int32 n ↔ n % 2 ^ 32 < 2 ^ 31 := by
  have hcast : ((2 ^ 32 : Nat) : Int) = 2 ^ 32 := rfl
  simp only [int32, Int.bmod, hcast]
  split <;> omega

/-- A round leaves what it has made of the timeout as it is. -/
theorem clampTimeout_idem (n : Nat) : clampTimeout (clampTimeout n) = clampTimeout n := by
  have hmax : clampTimeout maxTimeout = maxTimeout := by decide
  by_cases hall : n = maxUint64
  · have heq : clampTimeout n = maxTimeout := if_neg (not_not_intro hall)
    rw [heq, hmax]
  · by_cases hover : int32 n > maxTimeout
    · have heq : clampTimeout n = maxTimeout := by rw [clampTimeout, if_pos hall, if_pos hover]
      rw [heq, hmax]
    · have heq : clampTimeout n = n := by rw [clampTimeout, if_pos hall, if_neg hover]
      rw [heq, heq]

theorem waits_eq (retries n : Nat) : waits retries n = List.replicate (retries + 1) (int32 (clampTimeout n)) := by
  induction retries generalizing n with
  | zero => rfl
  | succ retries ih => rw [waits, ih, clampTimeout_idem, ← List.replicate_succ]

/-! ### The bounds -/

/-- Not for ever, not over three seconds, and not over the timeout. -/
structure Bounded (nextTimeout : Nat) (w : Int) : Prop where
  nonneg : 0 ≤ w
  le_max : w ≤ maxTimeout
  le_next : w ≤ nextTimeout

/-- There is no timer, or the low half of the timeout is not negative as an `int`. -/
def LowHalf (nextTimeout : Nat) : Prop := nextTimeout = maxUint64 ∨ nextTimeout % 2 ^ 32 < 2 ^ 31

instance (nextTimeout : Nat) : Decidable (LowHalf nextTimeout) := inferInstanceAs (Decidable (_ ∨ _))

theorem clamp_bounded_iff (n : Nat) : Bounded n (int32 (clampTimeout n)) ↔ LowHalf n := by
  have hmax : int32 maxTimeout = maxTimeout := by decide
  have hsmall : maxTimeout ≤ maxUint64 := by decide
  by_cases hall : n = maxUint64
  · have heq : clampTimeout n = maxTimeout := if_neg (not_not_intro hall)
    rw [heq, hmax, hall]
    exact iff_of_true ⟨Int.natCast_nonneg _, le_rfl, Int.ofNat_le.mpr hsmall⟩ (.inl rfl)
  · have hle := int32_le (Int.natCast_nonneg n)
    by_cases hover : int32 n > maxTimeout
    · have heq : clampTimeout n = maxTimeout := by rw [clampTimeout, if_pos hall, if_pos hover]
      have hpos : 0 ≤ int32 n := (Int.natCast_nonneg maxTimeout).trans hover.le
      rw [heq, hmax]
      exact iff_of_true ⟨Int.natCast_nonneg _, le_rfl, hover.le.trans hle⟩ (.inr ((int32_nonneg_iff n).mp hpos))
    · have heq : clampTimeout n = n := by rw [clampTimeout, if_pos hall, if_neg hover]
      rw [heq]
      constructor
      · exact fun h => .inr ((int32_nonneg_iff n).mp h.nonneg)
      · rintro (hmax | hlow)
        · exact absurd hmax hall
        · exact ⟨(int32_nonneg_iff n).mpr hlow, not_lt.mp hover, hle⟩

theorem waits_bounded_iff (retries n : Nat) : (∀ w ∈ waits retries n, Bounded n w) ↔ LowHalf n := by
  rw [waits_eq, ← clamp_bounded_iff n]
  constructor
  · exact fun h => h _ (List.mem_replicate.mpr ⟨Nat.succ_ne_zero _, rfl⟩)
  · intro h w hw
    rwa [List.eq_of_mem_replicate hw]

/-- A bounded wait is over when the first of the timers is due. -/
theorem Bounded.due {m : TimerManager} {t : Timer} {now : Nat} (h : Bounded (m.getNextTimer now).1 w) (ht : t ∈ m.timers) :
    now + w ≤ max t.next now := by
  have hnext : now + (m.getNextTimer now).1 ≤ max t.next now := TimerManager.getNextTimer_le ht
  have hle := h.le_next
  omega

/-- A timer that is due in `2 ^ 31` milliseconds. -/
def farTimer : TimerManager := ((TimerManager.new 0).addTimer (Timer.new 0 0 (2 ^ 31) false)).2

end IOManager
end MyHttp

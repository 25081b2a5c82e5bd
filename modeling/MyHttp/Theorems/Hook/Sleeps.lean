import MyHttp.Hook.Sleeps
import MyHttp.Theorems.TimerArming
import Mathlib.Tactic.Linarith

/-! The sleeps that are never short: those whose time is a whole number of milliseconds that goes through the `unsigned
    int` or the `int` of its call. -/

namespace MyHttp

open Lib.Run Lib.Machine

namespace TimerArming

open TimerObjects (Act)

variable {s₁ s₂ s t : TimerArming Nat} {a now now₀ ms ns fiber : Nat}

/-! ### The fiber's timer in a run -/

/-- The timer of the fiber is not armed again: nobody else has a pointer to it. -/
def Left (a : Nat) (s : TimerArming Nat) (act : Act Nat) : Prop := s.Steady act ∧ arms s.manager a act = none

/-- A fiber that has armed its timer with `ms` is not handed out before `ns` nanoseconds have passed, on a clock that
    does not wrap in this time. -/
def NotBefore (ns ms : Nat) : Prop :=
  ∀ now₀ s₁ a now fiber s₂ s, Reach step Steady (init now₀) s₁ → s₁.Steady (.addTimer a now ms (some fiber) false) →
    s₁.step (.addTimer a now ms (some fiber) false) = some s₂ → Reach step (Left a) s₂ s →
    now * 10 ^ 6 + ns < 2 ^ 64 * 10 ^ 6 →
    ∀ probe now', s.Steady (.listExpiredCb probe now') → a ∈ s.manager.expired probe now' →
      now * 10 ^ 6 + ns ≤ now' * 10 ^ 6

theorem armed_self (hs : s₁.step (.addTimer a now ms (some fiber) false) = some s₂) : s₂.armed a = (now, ms) := by
  obtain ⟨u, -, rfl⟩ := Option.map_eq_some_iff.mp hs
  have harms : arms s₁.manager a (.addTimer a now ms (some fiber) false) = some (now, ms) := if_pos rfl
  dsimp only
  rw [harms, Option.getD_some]

theorem armed_left (h : Reach step (Left a) s₂ s) : s.armed a = s₂.armed a :=
  h.invariant (P := fun s => s.armed a = s₂.armed a) rfl fun s act t hs hok ht => by
    obtain ⟨u, -, rfl⟩ := Option.map_eq_some_iff.mp ht
    dsimp only
    rw [hok.2, Option.getD_none, hs]

theorem reach_left (hr : Reach step Steady (init now₀) s₂) (h : Reach step (Left a) s₂ s) :
    Reach step Steady (init now₀) s :=
  h.invariant (P := fun s => Reach step Steady (init now₀) s) hr fun _ _ _ hs hok ht => hs.next hok.1 ht

/-- A period of exactly the time that is asked for. -/
theorem notBefore_of_eq (h : ms * 10 ^ 6 = ns) : NotBefore ns ms := by
  intro now₀ s₁ a now fiber s₂ s hr hok hs hleft hclock probe now' hok' hin
  have hr' := reach_left (hr.next hok hs) hleft
  have hdue := (inv_of_reach hr').expired_due hok' hin
  rw [armed_left hleft, armed_self hs] at hdue
  rw [wrap64_of_lt (by dsimp only; omega)] at hdue
  dsimp only at hdue
  omega

/-- A period that makes the due time wrap lets the fiber go at once. -/
theorem not_notBefore_of_wraps (hwraps : 2 ^ 64 ≤ now + ms) (hms : ms < 2 ^ 64) (hclock : now < 2 ^ 64) (hpos : 0 < ns)
    (hns : now * 10 ^ 6 + ns < 2 ^ 64 * 10 ^ 6) : ¬NotBefore ns ms := by
  intro h
  let s₂ : TimerArming Nat := ((init now).step (.addTimer 0 now ms (some 0) false)).get rfl
  have hok : (init now).Steady (.addTimer 0 now ms (some 0) false) := ⟨⟨rfl, rfl⟩, Nat.le_refl _, hclock, hms⟩
  have hs : (init now).step (.addTimer 0 now ms (some 0) false) = some s₂ := (Option.some_get _).symm
  have hinv : s₂.Inv := inv_of_reach (.next .start hok hs)
  have hok' : s₂.Steady (.listExpiredCb 1 now) := ⟨rfl, Nat.le_refl _, hclock, trivial⟩
  have hnext : (s₂.manager.object 0).next = wrap64 (now + ms) := rfl
  have hin : 0 ∈ s₂.manager.expired 1 now := by
    refine (hinv.expired_iff hok').mpr ⟨List.mem_singleton_self 0, ?_⟩
    rintro (hlt | ⟨-, hlt⟩)
    · rw [hnext, wrap64] at hlt
      omega
    · exact Nat.not_lt_zero 1 hlt
  have hpassed := h now (init now) 0 now 0 s₂ s₂ .start hok hs .start hns 1 now hok' hin
  omega

end TimerArming

/-! ### The three calls -/

namespace Hook
namespace SleepCall

open TimerArming (NotBefore notBefore_of_eq not_notBefore_of_wraps)

variable {c : SleepCall} {req : Timespec} {ms : Nat}

/-- The time that is asked for, in nanoseconds. -/
def requested : SleepCall → Nat
  | .sleep seconds => seconds.toNat * 10 ^ 9
  | .usleep usec => usec.toNat * 10 ^ 3
  | .nanosleep req => (req.tvSec * 10 ^ 9 + req.tvNsec).toNat

def Valid : SleepCall → Prop
  | .nanosleep req => 0 ≤ req.tvSec ∧ req.tvSec < 2 ^ 63 ∧ 0 ≤ req.tvNsec ∧ req.tvNsec < 10 ^ 9
  | _ => True

/-- The timer's period is not below the time that is asked for, and the fiber is not handed out before it has passed. -/
def NeverShort (c : SleepCall) : Prop :=
  ∃ ms, c.enter true = some (.timer ms) ∧ c.requested ≤ ms * 10 ^ 6 ∧ NotBefore c.requested ms

/-- The milliseconds are whole, and there are not too many of them. -/
def Exact : SleepCall → Prop
  | .sleep seconds => seconds.toNat ≤ 4294967
  | .usleep usec => 1000 ∣ usec.toNat
  | .nanosleep req => req.tvSec * 1000 + req.tvNsec / 10 ^ 6 < 2 ^ 31 ∧ 10 ^ 6 ∣ req.tvNsec

instance : DecidablePred Exact
  | .sleep _ => inferInstanceAs (Decidable (_ ≤ _))
  | .usleep _ => inferInstanceAs (Decidable (_ ∣ _))
  | .nanosleep _ => inferInstanceAs (Decidable (_ ∧ _))

theorem neverShort_of_eq (henter : c.enter true = some (.timer ms)) (h : ms * 10 ^ 6 = c.requested) : c.NeverShort :=
  ⟨ms, henter, h.ge, notBefore_of_eq h⟩

theorem NeverShort.timer (h : c.NeverShort) (henter : c.enter true = some (.timer ms)) :
    c.requested ≤ ms * 10 ^ 6 ∧ NotBefore c.requested ms := by
  obtain ⟨ms', henter', hle, hnot⟩ := h
  obtain rfl : ms = ms' := by
    cases henter.symm.trans henter'
    rfl
  exact ⟨hle, hnot⟩

theorem sleep_neverShort_iff (seconds : UInt32) : (sleep seconds).NeverShort ↔ (sleep seconds).Exact := by
  have hmul : (seconds * 1000).toNat = seconds.toNat * 1000 % 2 ^ 32 := UInt32.toNat_mul ..
  have henter : (sleep seconds).enter true = some (.timer (seconds.toNat * 1000 % 2 ^ 32)) := hmul ▸ rfl
  constructor
  · intro h
    have hle : seconds.toNat * 10 ^ 9 ≤ seconds.toNat * 1000 % 2 ^ 32 * 10 ^ 6 := (h.timer henter).1
    show seconds.toNat ≤ 4294967
    omega
  · intro h
    have hsmall : seconds.toNat ≤ 4294967 := h
    refine neverShort_of_eq henter ?_
    show seconds.toNat * 1000 % 2 ^ 32 * 10 ^ 6 = seconds.toNat * 10 ^ 9
    omega

theorem usleep_neverShort_iff (usec : UInt32) : (usleep usec).NeverShort ↔ (usleep usec).Exact := by
  have hdiv : (usec / 1000).toNat = usec.toNat / 1000 := UInt32.toNat_div ..
  have henter : (usleep usec).enter true = some (.timer (usec.toNat / 1000)) := hdiv ▸ rfl
  constructor
  · intro h
    have hle : usec.toNat * 10 ^ 3 ≤ usec.toNat / 1000 * 10 ^ 6 := (h.timer henter).1
    show 1000 ∣ usec.toNat
    omega
  · intro h
    have hwhole : 1000 ∣ usec.toNat := h
    refine neverShort_of_eq henter ?_
    show usec.toNat / 1000 * 10 ^ 6 = usec.toNat * 10 ^ 3
    omega

/-- What the `int` of `nanosleep` makes of its milliseconds. -/
theorem uint64_int32_cases (n : Nat) : (n < 2 ^ 31 ∧ uint64 (int32 n) = n) ∨
    (2 ^ 31 ≤ n ∧ (uint64 (int32 n) < n ∨ 2 ^ 64 - 2 ^ 31 ≤ uint64 (int32 n)) ∧ uint64 (int32 n) < 2 ^ 64) := by
  obtain ⟨hlow, hhigh, hdvd⟩ := (int32_iff n (int32 n)).mp rfl
  have hle := int32_le (Int.natCast_nonneg n)
  rcases Nat.lt_or_ge n (2 ^ 31) with hlt | hge
  · rw [int32_eq (Int.natCast_nonneg n) (by omega), uint64_of_nonneg (Int.natCast_nonneg n) (by omega), Int.toNat_natCast]
    exact .inl ⟨hlt, rfl⟩
  · refine .inr ⟨hge, ?_⟩
    rcases Int.lt_or_le (int32 n) 0 with hneg | hpos
    · rw [uint64_of_neg hneg (by omega)]
      omega
    · rw [uint64_of_nonneg hpos (by omega)]
      omega

theorem milliseconds_eq (sec nsec : Nat) : Timespec.milliseconds ⟨sec, nsec⟩ =
    if sec * 1000 + nsec / 10 ^ 6 < 2 ^ 63 then some ((sec * 1000 + nsec / 10 ^ 6 : Nat) : Int) else none := by
  have hdiv : ((nsec : Int).tdiv 1000).tdiv 1000 = ((nsec / 10 ^ 6 : Nat) : Int) := by
    rw [Int.tdiv_eq_ediv_of_nonneg (Int.natCast_nonneg nsec), Int.tdiv_eq_ediv_of_nonneg (by omega)]
    omega
  have hsum : (sec : Int) * 1000 + ((nsec / 10 ^ 6 : Nat) : Int) = ((sec * 1000 + nsec / 10 ^ 6 : Nat) : Int) := by
    omega
  unfold Timespec.milliseconds
  dsimp only
  rw [hdiv, hsum]
  exact if_congr (by omega) rfl rfl

theorem nanosleep_enter {sec nsec : Nat} (h : sec * 1000 + nsec / 10 ^ 6 < 2 ^ 63) :
    (nanosleep ⟨sec, nsec⟩).enter true =
      some (.timer (uint64 (int32 ((sec * 1000 + nsec / 10 ^ 6 : Nat) : Int)))) := by
  unfold enter timeoutMs
  dsimp only
  rw [milliseconds_eq, if_pos h]
  rfl

theorem nanosleep_overflow {sec nsec : Nat} (h : ¬sec * 1000 + nsec / 10 ^ 6 < 2 ^ 63) :
    (nanosleep ⟨sec, nsec⟩).enter true = none := by
  unfold enter timeoutMs
  dsimp only
  rw [milliseconds_eq, if_neg h]
  rfl

theorem nanosleep_neverShort_iff (h : (nanosleep req).Valid) : (nanosleep req).NeverShort ↔ (nanosleep req).Exact := by
  obtain ⟨tvSec, tvNsec⟩ := req
  obtain ⟨hsec, -, hnsec, hbelow⟩ := h
  dsimp only at hsec hnsec hbelow
  obtain ⟨sec, rfl⟩ := Int.eq_ofNat_of_zero_le hsec
  obtain ⟨nsec, rfl⟩ := Int.eq_ofNat_of_zero_le hnsec
  have hlast : nsec < 10 ^ 9 := by omega
  have hasked : (nanosleep ⟨sec, nsec⟩).requested = sec * 10 ^ 9 + nsec := by
    show ((sec : Int) * 10 ^ 9 + nsec).toNat = _
    omega
  have hexact : (nanosleep ⟨sec, nsec⟩).Exact ↔ sec * 1000 + nsec / 10 ^ 6 < 2 ^ 31 ∧ 10 ^ 6 ∣ nsec := by
    show (sec : Int) * 1000 + (nsec : Int) / 10 ^ 6 < 2 ^ 31 ∧ (10 ^ 6 : Int) ∣ nsec ↔ _
    omega
  rw [hexact]
  by_cases hfits : sec * 1000 + nsec / 10 ^ 6 < 2 ^ 63
  · have henter := nanosleep_enter hfits
    have hcases := uint64_int32_cases (sec * 1000 + nsec / 10 ^ 6)
    generalize uint64 (int32 ((sec * 1000 + nsec / 10 ^ 6 : Nat) : Int)) = ms at henter hcases
    rcases hcases with ⟨hsmall, heq⟩ | ⟨hlarge, hcases, hwidth⟩
    · constructor
      · intro hnever
        have hle := (hnever.timer henter).1
        rw [hasked] at hle
        omega
      · rintro ⟨-, hwhole⟩
        refine neverShort_of_eq henter ?_
        rw [hasked]
        omega
    · refine iff_of_false (fun hnever => ?_) fun hand => Nat.not_lt.mpr hlarge hand.1
      obtain ⟨hle, hnot⟩ := hnever.timer henter
      rw [hasked] at hle hnot
      rcases hcases with hless | hnegative
      · omega
      · have hclock : 2 ^ 31 < 2 ^ 64 := by decide
        have hwraps : 2 ^ 64 ≤ 2 ^ 31 + ms := by omega
        have hpos : 0 < sec * 10 ^ 9 + nsec := by omega
        have hsum : sec * 1000 < 2 ^ 63 := (Nat.le_add_right ..).trans_lt hfits
        have hend : 2 ^ 31 * 10 ^ 6 + (sec * 10 ^ 9 + nsec) < 2 ^ 64 * 10 ^ 6 := by linarith only [hsum, hlast]
        exact not_notBefore_of_wraps hwraps hwidth hclock hpos hend hnot
  · refine iff_of_false (fun hnever => ?_) fun hand => by omega
    obtain ⟨ms, henter, -⟩ := hnever
    cases (nanosleep_overflow hfits).symm.trans henter

/-- A hooked sleep is never short exactly when its milliseconds are whole and not too many. -/
theorem neverShort_iff (h : c.Valid) : c.NeverShort ↔ c.Exact := by
  cases c with
  | sleep seconds => exact sleep_neverShort_iff seconds
  | usleep usec => exact usleep_neverShort_iff usec
  | nanosleep req => exact nanosleep_neverShort_iff h

/-- A second and a half. -/
theorem neverShort_iff_nanosleep : (nanosleep ⟨1, 500000000⟩).NeverShort :=
  (neverShort_iff (c := .nanosleep ⟨1, 500000000⟩) ⟨by decide, by decide, by decide, by decide⟩).mpr (by decide)

/-- Half a millisecond is none. -/
theorem usleep_short : ¬∀ c : SleepCall, c.Valid → c.NeverShort := by
  intro h
  have hle := ((h (usleep 500) trivial).timer rfl).1
  exact absurd hle (by decide)

end SleepCall
end Hook
end MyHttp

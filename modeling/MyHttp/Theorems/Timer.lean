import MyHttp.Timer

/-! What the operations of the timer set give: the next timeout is the time to the earliest timer, and the set only
    gains timers whose due time is a `uint64_t`. -/

namespace MyHttp
namespace TimerManager

open Lib.Machine

variable {m : TimerManager} {t x : Timer} {now probe : Nat}

theorem next_le_of_before {a b : Timer} (h : a.before b) : a.next ≤ b.next := by
  rcases h with h | h
  · exact h.le
  · exact h.1.le

/-- Every due time is a `uint64_t`. -/
def Bounded (m : TimerManager) : Prop := ∀ t ∈ m.timers, t.next < 2 ^ 64

/-! ### The next timeout -/

/-- The timeout ends by every timer that is not due yet, and is zero when one is. -/
theorem getNextTimer_le (ht : t ∈ m.timers) : now + (m.getNextTimer now).1 ≤ max t.next now := by
  obtain ⟨timers, tickled, previouseTime, sorted⟩ := m
  cases timers with
  | nil => cases ht
  | cons first rest =>
    have hfirst : first.next ≤ t.next := by
      rcases List.mem_cons.mp ht with rfl | ht
      · exact Nat.le_refl _
      · exact next_le_of_before ((List.pairwise_cons.mp sorted).1 t ht)
    simp only [getNextTimer]
    split_ifs <;> omega

/-- `~0ull` stands for the empty set, unless a clock at zero meets the largest due time. -/
theorem getNextTimer_max (hb : m.Bounded) (hnow : 0 < now) (h : (m.getNextTimer now).1 = maxUint64) :
    m.timers = [] := by
  rcases hm : m.timers with _ | ⟨first, rest⟩
  · rfl
  · have hlt : first.next < 2 ^ 64 := hb first (by rw [hm]; exact List.mem_cons_self)
    simp only [getNextTimer, hm, maxUint64] at h
    split_ifs at h
    omega

/-! ### Members of the changed set -/

theorem mem_addTimer (h : x ∈ (m.addTimer t).2.timers) : x = t ∨ x ∈ m.timers := Timer.mem_insertInto h

theorem Bounded.addTimer {addr ms : Nat} {recurring : Bool} (hb : m.Bounded) :
    (m.addTimer (.new addr now ms recurring)).2.Bounded := by
  intro x hx
  rcases mem_addTimer hx with rfl | hx
  · exact wrap64_lt _
  · exact hb x hx

theorem mem_erase {addr : Nat} (h : x ∈ (m.erase addr).timers) : x ∈ m.timers := (List.mem_filter.mp h).1

theorem mem_rearm {l : List Timer} (h : x ∈ (l.foldl (fun m t => m.insert { t with next := wrap64 (now + t.ms) }) m).timers) :
    x ∈ m.timers ∨ x.next < 2 ^ 64 := by
  induction l generalizing m with
  | nil => exact Or.inl h
  | cons u l ih =>
    rcases ih h with h | h
    · rcases Timer.mem_insertInto h with rfl | h
      · exact Or.inr (wrap64_lt _)
      · exact Or.inl h
    · exact Or.inr h

theorem Bounded.listExpiredCb (hb : m.Bounded) : (m.listExpiredCb probe now).2.Bounded := by
  unfold TimerManager.listExpiredCb
  split
  · exact hb
  · dsimp only
    split
    · exact hb
    · intro x hx
      rcases mem_rearm hx with hx | hx
      · exact hb x (List.mem_of_mem_drop hx)
      · exact hx

end TimerManager
end MyHttp

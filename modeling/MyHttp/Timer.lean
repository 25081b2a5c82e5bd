import MyHttp.Lib.Machine
import Mathlib.Data.List.Pairwise

/-! The timer set (`timer.h`, `timer.cpp`): timers ordered by due time and then by address, the flag that keeps a
    second front insertion from waking a worker again, and the clock value seen last. -/

namespace MyHttp

open Lib.Machine

structure Timer where
  addr : Nat
  recurring : Bool
  ms : Nat
  next : Nat
deriving DecidableEq, Repr

/-- `GetCurrentMS() + m_ms`, as a `uint64_t`. -/
def Timer.new (addr now ms : Nat) (recurring : Bool) : Timer :=
  { addr, recurring, ms, next := wrap64 (now + ms) }

/-- `Timer::Comparator`. -/
def Timer.before (a b : Timer) : Prop := a.next < b.next ∨ a.next = b.next ∧ a.addr < b.addr

instance (a b : Timer) : Decidable (a.before b) := by
  unfold Timer.before
  infer_instance

/-- The insertion of the ordered set; an equivalent element is kept. -/
def Timer.insertInto (t : Timer) : List Timer → List Timer
  | [] => [t]
  | u :: us => if t.before u then t :: u :: us else if u.before t then u :: t.insertInto us else u :: us

theorem Timer.before_trans {a b c : Timer} (h₁ : a.before b) (h₂ : b.before c) : a.before c := by
  unfold Timer.before at *
  omega

theorem Timer.mem_insertInto {t x : Timer} {l : List Timer} (h : x ∈ t.insertInto l) : x = t ∨ x ∈ l := by
  induction l with
  | nil => simpa [insertInto] using h
  | cons u us ih =>
    unfold insertInto at h
    split_ifs at h
    · simpa using h
    · rcases List.mem_cons.mp h with rfl | h
      · exact Or.inr List.mem_cons_self
      · exact (ih h).imp_right (List.mem_cons_of_mem u)
    · exact Or.inr h

theorem Timer.sorted_insertInto {t : Timer} {l : List Timer} (h : l.Pairwise Timer.before) :
    (t.insertInto l).Pairwise Timer.before := by
  induction l with
  | nil => simp [insertInto]
  | cons u us ih =>
    obtain ⟨hu, hus⟩ := List.pairwise_cons.mp h
    unfold insertInto
    split_ifs with htu hut
    · refine List.pairwise_cons.mpr ⟨fun x hx => ?_, h⟩
      rcases List.mem_cons.mp hx with rfl | hx
      · exact htu
      · exact Timer.before_trans htu (hu x hx)
    · refine List.pairwise_cons.mpr ⟨fun x hx => ?_, ih hus⟩
      rcases Timer.mem_insertInto hx with rfl | hx
      · exact hut
      · exact hu x hx
    · exact h

/-- The ordered set `m_timers` with `m_tickled` and `m_previouseTime`. -/
structure TimerManager where
  timers : List Timer
  tickled : Bool
  previouseTime : Nat
  sorted : timers.Pairwise Timer.before

namespace TimerManager

def new (now : Nat) : TimerManager := ⟨[], false, now, .nil⟩

/-- The time to the earliest timer, or `~0ull`. -/
def getNextTimer (m : TimerManager) (now : Nat) : Nat × TimerManager :=
  let timeout := match m.timers with
    | [] => maxUint64
    | next :: _ => if now ≥ next.next then 0 else next.next - now
  (timeout, { m with tickled := false })

def insert (m : TimerManager) (t : Timer) : TimerManager :=
  { m with timers := t.insertInto m.timers, sorted := Timer.sorted_insertInto m.sorted }

/-- The insertion under the lock; the flag returned says whether `onTimerInsertedAtFront` is called. -/
def addTimer (m : TimerManager) (t : Timer) : Bool × TimerManager :=
  let m := m.insert t
  let atFront := m.timers.head? = some t ∧ m.tickled = false
  (atFront, { m with tickled := m.tickled || atFront })

/-- The erasure of `Timer::cancel`. -/
def erase (m : TimerManager) (addr : Nat) : TimerManager :=
  { m with timers := m.timers.filter fun t => t.addr ≠ addr, sorted := m.sorted.filter _ }

/-- A clock that has fallen back by more than an hour; the subtraction wraps when the last reading is smaller than
    that. -/
def detectClockRollover (m : TimerManager) (now : Nat) : Bool × TimerManager :=
  (now < m.previouseTime ∧ now < sub64 m.previouseTime (60 * 60 * 1000), { m with previouseTime := now })

/-- The expired timers leave the set, and those that recur come back. `probe` is the address of the timer made
    up for the search. -/
def listExpiredCb (m : TimerManager) (probe now : Nat) : List Timer × TimerManager :=
  if m.timers = [] then ([], m) else
  let (rollover, m) := m.detectClockRollover now
  if rollover = false ∧ ∃ first ∈ m.timers.head?, first.next > now then ([], m) else
  let nowTimer : Timer := { addr := probe, recurring := false, ms := 0, next := now }
  let expired := if rollover then m.timers else m.timers.takeWhile fun t => ¬nowTimer.before t
  let kept := { m with timers := m.timers.drop expired.length, sorted := m.sorted.drop }
  (expired, (expired.filter (·.recurring)).foldl
    (fun m t => m.insert { t with next := wrap64 (now + t.ms) }) kept)

end TimerManager
end MyHttp

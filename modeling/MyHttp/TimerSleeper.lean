import MyHttp.TimerObjects
import Mathlib.Data.List.MinMax

/-! A thread that asks `getNextTimer` how long it may sleep, and what it is told afterwards. Each call is atomic; the
    clock is the last reading of any of them. -/

namespace MyHttp

namespace TimerObjects

variable {Cb : Type}

/-- The earliest due time of the set, or infinity. -/
def earliest (s : TimerObjects Cb) : WithTop Nat := (s.timers.map fun a => (s.object a).next).minimum

/-- The call ends with `onTimerInsertedAtFront`. -/
def tells (s : TimerObjects Cb) : Act Cb → Bool
  | .addTimer a now ms cb recurring => (s.addTimer a now ms cb recurring).1
  | .reset a now ms fromNow => (s.reset a now ms fromNow).2.1
  | _ => false

/-- The reading of the clock of a call that makes one. -/
def Act.reading : Act Cb → Option Nat
  | .addTimer _ now _ _ _ | .refresh _ now | .listExpiredCb _ now => some now
  | .reset _ now _ fromNow => if fromNow then some now else none
  | .cancel _ => none

/-- The sums that the call makes for new due times stay below `2 ^ 64`. -/
def SumsFit (s : TimerObjects Cb) : Act Cb → Prop
  | .addTimer _ now ms _ _ => now + ms < 2 ^ 64
  | .cancel _ => True
  | .refresh a now => (s.object a).cb.isSome → now + (s.object a).ms < 2 ^ 64
  | .reset a now ms fromNow => (s.object a).cb.isSome → ¬(ms = (s.object a).ms ∧ fromNow = false) →
    s.resetStart a now fromNow + ms < 2 ^ 64
  | .listExpiredCb _ now => ∀ a ∈ s.timers, (s.object a).recurring = true → (s.object a).next ≤ now →
    now + (s.object a).ms < 2 ^ 64

/-- A timer that a call makes is new memory. -/
def NewMemory (s : TimerObjects Cb) : Act Cb → Prop
  | .addTimer a _ _ _ _ | .listExpiredCb a _ => a ∉ s.timers
  | _ => True

instance (s : TimerObjects Cb) (act : Act Cb) : Decidable (s.SumsFit act) := by
  induction act using Act.casesOn <;> unfold SumsFit <;> infer_instance

instance (s : TimerObjects Cb) (act : Act Cb) : Decidable (s.NewMemory act) := by
  induction act using Act.casesOn <;> unfold NewMemory <;> infer_instance

end TimerObjects

/-- The manager beside a thread that sleeps until `deadline`. -/
structure TimerSleeper (Cb : Type) where
  manager : TimerObjects Cb
  clock : Nat
  /-- the earliest due time at the last `getNextTimer` -/
  deadline : WithTop Nat
  /-- `onTimerInsertedAtFront` was called since -/
  notified : Bool

namespace TimerSleeper

variable {Cb : Type}

def init (now : Nat) : TimerSleeper Cb := ⟨.new now, now, ⊤, false⟩

inductive Act (Cb : Type) where
  | operation (act : TimerObjects.Act Cb)
  | getNextTimer (now : Nat)
deriving DecidableEq, Repr

def step (s : TimerSleeper Cb) : Act Cb → Option (TimerSleeper Cb)
  | .operation act => (s.manager.step act).map fun manager =>
    { s with manager, clock := act.reading.getD s.clock, notified := s.notified || s.manager.tells act }
  | .getNextTimer now =>
    some ⟨(s.manager.getNextTimer now).2, now, s.manager.earliest, false⟩

/-- The clock never goes back, and no due time wraps. -/
def Steady (s : TimerSleeper Cb) : Act Cb → Prop
  | .operation act => (∀ now ∈ act.reading, s.clock ≤ now) ∧ s.manager.SumsFit act ∧ s.manager.NewMemory act
  | .getNextTimer now => s.clock ≤ now

instance (s : TimerSleeper Cb) (a : Act Cb) : Decidable (s.Steady a) := by
  induction a using Act.casesOn <;> unfold Steady <;> infer_instance

end TimerSleeper
end MyHttp

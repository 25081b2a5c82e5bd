import MyHttp.TimerObjects

/-! The manager under a clock that never goes back, beside what was asked of it: when each timer was last armed, and for
    how long. -/

namespace MyHttp

structure TimerArming (Cb : Type) where
  manager : TimerObjects Cb
  clock : Nat
  /-- the reading of the clock and the period, when the timer was last armed -/
  armed : Nat → Nat × Nat

namespace TimerArming

open TimerObjects

variable {Cb : Type}

def init (now : Nat) : TimerArming Cb := ⟨.new now, now, fun _ => (0, 0)⟩

/-- The timers that a call arms, with the reading of the clock and the period. -/
def arms (s : TimerObjects Cb) (a : Nat) : Act Cb → Option (Nat × Nat)
  | .addTimer b now ms _ _ => if b = a then some (now, ms) else none
  | .cancel _ => none
  | .refresh b now => if b = a ∧ (s.refresh b now).1 = true then some (now, (s.object a).ms) else none
  | .reset b now ms fromNow => if b = a ∧ (s.reset b now ms fromNow).1 = true then some (now, ms) else none
  | .listExpiredCb probe now =>
    if a ∈ s.expired probe now ∧ (s.object a).recurring = true then some (now, (s.object a).ms) else none

/-- The clock after a call: its reading, where it makes one. -/
def clockAfter (clock : Nat) : Act Cb → Nat
  | .addTimer _ now _ _ _ | .refresh _ now | .reset _ now _ _ | .listExpiredCb _ now => now
  | .cancel _ => clock

def step (s : TimerArming Cb) (act : Act Cb) : Option (TimerArming Cb) :=
  (s.manager.step act).map fun manager =>
    ⟨manager, clockAfter s.clock act, fun a => (arms s.manager a act).getD (s.armed a)⟩

/-- The clock and the periods are `uint64_t`, the clock never goes back, and a reset counts from now. -/
def Steady (s : TimerArming Cb) (act : Act Cb) : Prop :=
  s.manager.Ok act ∧ s.clock ≤ clockAfter s.clock act ∧ clockAfter s.clock act < 2 ^ 64 ∧
    match act with
    | .addTimer _ _ ms _ _ => ms < 2 ^ 64
    | .reset _ _ ms fromNow => ms < 2 ^ 64 ∧ fromNow = true
    | _ => True

instance (s : TimerArming Cb) (act : Act Cb) : Decidable (s.Steady act) := by
  induction act using Act.casesOn <;> unfold Steady <;> infer_instance

end TimerArming
end MyHttp

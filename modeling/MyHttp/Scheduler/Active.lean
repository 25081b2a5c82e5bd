import MyHttp.Scheduler
import Mathlib.Data.Fintype.Card

/-! `m_activeThreadCount`: raised in the critical section that takes an entry out of the queue, lowered after `swapIn`
    has returned. The decrement is a step of its own, before the look at the state of the fiber. -/

namespace MyHttp
namespace Scheduler

/-- The scheduler with the count of active threads. -/
structure Active (n : Nat) where
  state : State n
  activeThreadCount : Nat
  /-- the worker is back from `swapIn`, before the decrement -/
  returned : Fin n → Bool

/-- Between the fetch and the end of the switch back. -/
def Pc.switching : Pc → Bool
  | .picked _ | .enter .. | .switch .. | .running _ | .leaving _ => true
  | _ => false

namespace Active

variable {n : Nat}

def init (n : Nat) : Active n := ⟨.init n, 0, fun _ => false⟩

inductive Act (n : Nat) where
  | scheduler (a : Scheduler.Act n)
  | decrement (w : Fin n)
deriving DecidableEq, Repr

/-- The scan of `run` takes an entry. -/
def takes (s : Active n) (w : Fin n) : Bool := (s.state.queue.find? (s.state.takeable w)).isSome

def step (s : Active n) : Act n → Option (Active n)
  | .scheduler (.worker w .fetch) => (s.state.step (.worker w .fetch)).map fun state =>
    { s with state, activeThreadCount := if s.takes w then s.activeThreadCount + 1 else s.activeThreadCount }
  | .scheduler (.worker w .leave) => (s.state.step (.worker w .leave)).map fun state =>
    { s with state, returned := Function.update s.returned w true }
  | .scheduler (.worker w .look) =>
    if s.returned w then none else (s.state.step (.worker w .look)).map fun state => { s with state }
  | .scheduler a => (s.state.step a).map fun state => { s with state }
  | .decrement w =>
    if s.returned w then
      some { s with
        activeThreadCount := s.activeThreadCount - 1, returned := Function.update s.returned w false }
    else none

/-- The worker has taken an entry, and has not finished switching back. -/
def busy (s : Active n) (w : Fin n) : Bool := (s.state.workers w).pc.switching || s.returned w

/-- How many workers are. -/
def taken (s : Active n) : Nat := (Finset.univ.filter fun w => s.busy w = true).card

/-- `Scheduler::stopping`. -/
def stopping (s : Active n) (autoStop stopping : Bool) : Bool :=
  autoStop && stopping && s.state.queue.isEmpty && s.activeThreadCount = 0

/-- A fiber that was taken is not over when `run` looks at its state. -/
def PickedUpAlive (s : Active n) : Act n → Prop
  | .scheduler (.worker w .dispatch) =>
    match (s.state.workers w).pc with
    | .picked (.fiber f) => (s.state.fibers f).state.over = false
    | _ => True
  | _ => True

instance (s : Active n) (a : Act n) : Decidable (s.PickedUpAlive a) := by
  unfold PickedUpAlive
  split
  · split <;> infer_instance
  · infer_instance

end Active
end Scheduler
end MyHttp

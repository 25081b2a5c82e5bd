/-! Fibers (`fiber.h`, `fiber.cpp`): the state word, the function to run, and whether the saved context is the
    start of `MainFunc` or a place where the function yielded. -/

namespace MyHttp

abbrev FiberId := Nat

inductive FiberState where
  | init
  | hold
  | exec
  | term
  | ready
  | except
deriving DecidableEq, Repr

/-- A fiber whose function has returned or thrown. -/
def FiberState.over (s : FiberState) : Bool := s = .term || s = .except

/-- `m_cb`: empty, the callback of a task, or a function that is none of the scheduler's. -/
inductive Body where
  | null
  | task (c : Nat)
  | own
deriving DecidableEq, Repr

structure Fiber where
  state : FiberState
  body : Body
  /-- the context starts `MainFunc` -/
  fresh : Bool
deriving DecidableEq, Repr

namespace Fiber

def new (body : Body) : Fiber := ⟨.init, body, true⟩

/-- The assertion in `reset`. -/
def resettable (f : Fiber) : Bool := f.state = .term || f.state = .except || f.state = .init

/-- `reset`, when its assertion holds. -/
def reset (f : Fiber) (body : Body) : Option Fiber := if f.resettable then some (new body) else none

/-- The callback that a switch to the context starts. -/
def starts (f : Fiber) : List Nat :=
  match f.fresh, f.body with
  | true, .task c => [c]
  | _, _ => []

end Fiber
end MyHttp

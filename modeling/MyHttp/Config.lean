import Mathlib.Logic.Function.Basic

/-! `ConfigVar` (`config.h`) under calls from any number of threads. `setValue` compares and calls the listeners under
    the read lock and assigns under the write lock. What is done under the write lock is one step, and waits for the
    readers. -/

namespace MyHttp

variable {α : Type} {n : Nat}

/-- A `setValue(v)` that has found `v` different: the listeners still to call, and the old values that it has passed. -/
structure Setting (α : Type) where
  value : α
  rest : List Nat
  told : List α
deriving DecidableEq, Repr

/-- Where a thread is in `setValue`. -/
inductive SetPc (α : Type) where
  | out
  /-- before the read lock -/
  | called (v : α)
  /-- under the read lock -/
  | notifying (c : Setting α)
  /-- before the write lock -/
  | assigning (c : Setting α)
deriving DecidableEq, Repr

/-- An assignment: the old values that the listeners were told, and the values before and after it. -/
structure Change (α : Type) where
  told : List α
  before : α
  after : α
deriving DecidableEq, Repr

structure ConfigVar (α : Type) (n : Nat) where
  val : α
  /-- the keys of `m_cbs`, in order -/
  cbs : List Nat
  /-- `s_fun_id`, which the variables of one type share -/
  funId : Nat
  threads : Fin n → SetPc α
  /-- the new value that each listener was told last -/
  last : Nat → Option α
  changes : List (Change α)

inductive ConfigAct (α : Type) (n : Nat) where
  | setValue (i : Fin n) (v : α)
  | run (i : Fin n)
  | addListener
  /-- `addListener` of another variable of the type -/
  | addElsewhere
  | delListener (key : Nat)
  | clearListener
deriving DecidableEq, Repr

namespace ConfigVar

def init (n : Nat) (defaultValue : α) : ConfigVar α n where
  val := defaultValue
  cbs := []
  funId := 0
  threads _ := .out
  last _ := none
  changes := []

def goto (s : ConfigVar α n) (i : Fin n) (pc : SetPc α) : ConfigVar α n :=
  { s with threads := Function.update s.threads i pc }

def reading : SetPc α → Bool
  | .notifying _ => true
  | _ => false

/-- No thread holds the read lock. -/
def Free (s : ConfigVar α n) : Prop := ∀ i, reading (s.threads i) = false

instance (s : ConfigVar α n) : Decidable s.Free := by unfold Free; infer_instance

variable [DecidableEq α]

/-- The next step of a thread inside `setValue`. -/
def run (s : ConfigVar α n) (i : Fin n) : SetPc α → Option (ConfigVar α n)
  | .out => none
  | .called v => if v = s.val then some (s.goto i .out) else some (s.goto i (.notifying ⟨v, s.cbs, []⟩))
  | .notifying ⟨v, id :: rest, told⟩ =>
    some ({ s with last := Function.update s.last id (some v) }.goto i (.notifying ⟨v, rest, told ++ [s.val]⟩))
  | .notifying ⟨v, [], told⟩ => some (s.goto i (.assigning ⟨v, [], told⟩))
  | .assigning c =>
    if s.Free then
      let change : Change α := ⟨c.told, s.val, c.value⟩
      some ({ s with val := c.value, changes := s.changes ++ [change] }.goto i .out)
    else none

/-- `clearListener` takes no lock; it is possible here only where the list is not being read. -/
def step (s : ConfigVar α n) : ConfigAct α n → Option (ConfigVar α n)
  | .setValue i v => if s.threads i = .out then some (s.goto i (.called v)) else none
  | .run i => s.run i (s.threads i)
  | .addListener =>
    if s.Free then some { s with cbs := s.cbs ++ [s.funId + 1], funId := s.funId + 1 } else none
  | .addElsewhere => some { s with funId := s.funId + 1 }
  | .delListener key => if s.Free then some { s with cbs := s.cbs.erase key } else none
  | .clearListener => if s.Free then some { s with cbs := [] } else none

end ConfigVar
end MyHttp

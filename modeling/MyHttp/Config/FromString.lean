import MyHttp.Config
import MyHttp.Lib.CString
import Mathlib.Data.List.Pairwise

/-! `fromString` and `setValue` of one `ConfigVar` (`config.h`) in one thread, with a conversion and with listeners that
    may throw. -/

namespace MyHttp

open Lib.CString

variable {α : Type}

/-- A call of a listener: its key, its arguments, and what the variable holds at the moment. -/
structure Notice (α : Type) where
  key : Nat
  oldValue : α
  newValue : α
  val : α
deriving DecidableEq, Repr

/-- The value and the keys of `m_cbs`, in order. -/
structure ConfigValue (α : Type) where
  val : α
  cbs : List Nat
  sorted : cbs.Pairwise (· < ·)

namespace ConfigValue

/-- The loop over `m_cbs`, until a listener throws: the calls that were made, and whether it came to its end. -/
def notify (throws : Nat → α → α → Bool) (val v : α) : List Nat → List (Notice α) × Bool
  | [] => ([], true)
  | key :: rest =>
    let notice : Notice α := ⟨key, val, v, val⟩
    if throws key val v then ([notice], false)
    else
      let (notices, done) := notify throws val v rest
      (notice :: notices, done)

variable [DecidableEq α]

/-- `setValue`: whether it returns, the calls it makes, and the variable afterwards. -/
def setValue (throws : Nat → α → α → Bool) (s : ConfigValue α) (v : α) : Bool × List (Notice α) × ConfigValue α :=
  if v = s.val then (true, [], s)
  else
    let (notices, done) := notify throws s.val v s.cbs
    (done, notices, if done then { s with val := v } else s)

/-- `fromString`, with what it returns. A conversion that throws is `none`. -/
def fromString (fromStr : Bytes → Option α) (throws : Nat → α → α → Bool) (s : ConfigValue α) (val : Bytes) :
    Bool × List (Notice α) × ConfigValue α :=
  match fromStr val with
  | none => (false, [], s)
  | some v => s.setValue throws v

end ConfigValue
end MyHttp

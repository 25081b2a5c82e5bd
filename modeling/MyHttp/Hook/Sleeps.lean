import MyHttp.TimerArming

/-! `sleep`, `usleep` and `nanosleep` (`hook.cpp`): the period of the timer that each of them arms for its fiber. -/

namespace MyHttp
namespace Hook

open Lib.Machine

/-- `timespec`. -/
structure Timespec where
  tvSec : Int
  tvNsec : Int
deriving DecidableEq, Repr

inductive SleepCall where
  | sleep (seconds : UInt32)
  | usleep (usec : UInt32)
  | nanosleep (req : Timespec)
deriving DecidableEq, Repr

/-- What a call does: the system call, or a timer for the fiber, which is then switched out. -/
inductive SleepEntry where
  | direct
  | timer (ms : Nat)
deriving DecidableEq, Repr

/-- The `long` of `nanosleep`, which is undefined when it overflows. -/
def Timespec.milliseconds (req : Timespec) : Option Int :=
  let sum := req.tvSec * 1000 + (req.tvNsec.tdiv 1000).tdiv 1000
  if -2 ^ 63 ≤ req.tvSec * 1000 ∧ req.tvSec * 1000 < 2 ^ 63 ∧ -2 ^ 63 ≤ sum ∧ sum < 2 ^ 63 then some sum else none

namespace SleepCall

/-- The first argument of `addTimer`. -/
def timeoutMs : SleepCall → Option Nat
  | .sleep seconds => some (seconds * 1000).toNat
  | .usleep usec => some (usec / 1000).toNat
  | .nanosleep req => req.milliseconds.map fun sum => uint64 (int32 sum)

def enter (hookEnable : Bool) (c : SleepCall) : Option SleepEntry :=
  if !hookEnable then some .direct else c.timeoutMs.map .timer

end SleepCall
end Hook
end MyHttp

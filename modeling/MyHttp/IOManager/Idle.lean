import MyHttp.Timer

/-! How long `IOManager::idle` lets `epoll_wait` sleep (`iomanager.cpp`). -/

namespace MyHttp
namespace IOManager

open Lib.Machine

/-- `MAX_TIMEOUT`. -/
def maxTimeout : Nat := 3000

/-- `stopping(timeout)`, with the timeout that it gives back. -/
def stopping (m : TimerManager) (now pendingEventCount : Nat) (schedulerStopping : Bool) : Bool × Nat × TimerManager :=
  let (timeout, m) := m.getNextTimer now
  (timeout = maxUint64 ∧ pendingEventCount = 0 ∧ schedulerStopping, timeout, m)

/-- The new `next_timeout` of a round. It is compared as an `int`. -/
def clampTimeout (nextTimeout : Nat) : Nat :=
  if nextTimeout ≠ maxUint64 then if int32 nextTimeout > maxTimeout then maxTimeout else nextTimeout
  else maxTimeout

/-- What is passed to `epoll_wait` when it fails with `EINTR` so many times. -/
def waits : (retries nextTimeout : Nat) → List Int
  | 0, nextTimeout => [int32 (clampTimeout nextTimeout)]
  | retries + 1, nextTimeout => int32 (clampTimeout nextTimeout) :: waits retries (clampTimeout nextTimeout)

/-- The waits in one round of the outer loop, which is left when the manager stops. -/
def idleWaits (m : TimerManager) (now pendingEventCount : Nat) (schedulerStopping : Bool) (retries : Nat) : List Int :=
  let (stop, nextTimeout, _) := stopping m now pendingEventCount schedulerStopping
  if stop then [] else waits retries nextTimeout

end IOManager
end MyHttp

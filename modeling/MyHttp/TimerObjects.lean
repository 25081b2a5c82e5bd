import MyHttp.Lib.Machine
import MyHttp.Lib.OrderedSet

/-! The timers as objects behind shared pointers, and the set of pointers that is ordered by what the objects say at
    the moment (`timer.cpp`). Each operation is atomic under the lock of the manager and reads the clock as it likes. -/

namespace MyHttp

open Lib.Machine
open Lib

/-- `Timer` without its address; an empty callback is `none`. -/
structure TimerObject (Cb : Type) where
  recurring : Bool
  ms : Nat
  next : Nat
  cb : Option Cb
deriving DecidableEq, Repr

/-- The objects by address, with memory that holds no timer read as one without callback, and the fields of
    `TimerManager`. -/
structure TimerObjects (Cb : Type) where
  object : Nat → TimerObject Cb
  timers : List Nat
  tickled : Bool
  previouseTime : Nat

namespace TimerObjects

variable {Cb : Type}

/-- `Timer::Comparator` on two pointers. -/
def before (object : Nat → TimerObject Cb) (lhs rhs : Nat) : Prop :=
  (object lhs).next < (object rhs).next ∨ (object lhs).next = (object rhs).next ∧ lhs < rhs

instance (object : Nat → TimerObject Cb) : DecidableRel (before object) := fun _ _ => by
  unfold before
  infer_instance

def new (now : Nat) : TimerObjects Cb := ⟨fun _ => ⟨false, 0, 0, none⟩, [], false, now⟩

def set (s : TimerObjects Cb) (a : Nat) (o : TimerObject Cb) : TimerObjects Cb :=
  { s with object := Function.update s.object a o }

def find (s : TimerObjects Cb) (a : Nat) : Option Nat := OrderedSet.find (before s.object) s.timers a

def insert (s : TimerObjects Cb) (a : Nat) : TimerObjects Cb :=
  { s with timers := (OrderedSet.insert (before s.object) s.timers a).1 }

/-- The insertion of `addTimer`; the flag says whether `onTimerInsertedAtFront` is called. -/
def insertTimer (s : TimerObjects Cb) (a : Nat) : Bool × TimerObjects Cb :=
  let it := (OrderedSet.insert (before s.object) s.timers a).2
  let s := s.insert a
  let atFront := it = 0 ∧ s.tickled = false
  (atFront, { s with tickled := s.tickled || atFront })

/-- `addTimer(ms, cb, recurring)` with the new object at `a`. -/
def addTimer (s : TimerObjects Cb) (a now ms : Nat) (cb : Option Cb) (recurring : Bool) : Bool × TimerObjects Cb :=
  (s.set a ⟨recurring, ms, wrap64 (now + ms), cb⟩).insertTimer a

/-- `none` is the erasure of `end()`. -/
def cancel (s : TimerObjects Cb) (a : Nat) : Option (Bool × TimerObjects Cb) :=
  if (s.object a).cb.isSome then
    let s := s.set a { s.object a with cb := none }
    (s.find a).map fun it => (true, { s with timers := s.timers.eraseIdx it })
  else some (false, s)

def refresh (s : TimerObjects Cb) (a now : Nat) : Bool × TimerObjects Cb :=
  if (s.object a).cb.isNone then (false, s) else
  match s.find a with
  | none => (false, s)
  | some it =>
    let s := { s with timers := s.timers.eraseIdx it }
    let s := s.set a { s.object a with next := wrap64 (now + (s.object a).ms) }
    (true, s.insert a)

/-- The due time that a reset counts from. -/
def resetStart (s : TimerObjects Cb) (a now : Nat) (fromNow : Bool) : Nat :=
  if fromNow then now else sub64 (s.object a).next (s.object a).ms

/-- The second flag is that of `insertTimer`. -/
def reset (s : TimerObjects Cb) (a now ms : Nat) (fromNow : Bool) : Bool × Bool × TimerObjects Cb :=
  if ms = (s.object a).ms ∧ fromNow = false then (true, false, s) else
  if (s.object a).cb.isNone then (false, false, s) else
  match s.find a with
  | none => (false, false, s)
  | some it =>
    let s := { s with timers := s.timers.eraseIdx it }
    let start := if fromNow then now else sub64 (s.object a).next (s.object a).ms
    (true, (s.set a { s.object a with ms := ms, next := wrap64 (start + ms) }).insertTimer a)

def detectClockRollover (s : TimerObjects Cb) (now : Nat) : Bool × TimerObjects Cb :=
  (now < s.previouseTime ∧ now < sub64 s.previouseTime (60 * 60 * 1000), { s with previouseTime := now })

/-- The loop over the expired timers: their callbacks are taken, and those that recur come back into the set. -/
def rearm (now : Nat) : List Nat → TimerObjects Cb → List (Option Cb) × TimerObjects Cb
  | [], s => ([], s)
  | a :: expired, s =>
    let o := s.object a
    let (cbs, s) := rearm now expired
      (if o.recurring then (s.set a { o with next := wrap64 (now + o.ms) }).insert a else s.set a { o with cb := none })
    (o.cb :: cbs, s)

/-- `probe` is the address of the timer made for the search; it is dead memory afterwards. -/
def listExpiredCb (s : TimerObjects Cb) (probe now : Nat) : List (Option Cb) × TimerObjects Cb :=
  if s.timers = [] then ([], s) else
  let (rollover, s) := s.detectClockRollover now
  if rollover = false ∧ ∃ first ∈ s.timers.head?, (s.object first).next > now then ([], s) else
  let s := s.set probe ⟨false, 0, now, none⟩
  let it := if rollover then s.timers.length else OrderedSet.upperBound (before s.object) s.timers probe
  rearm now (s.timers.take it) { s with timers := s.timers.drop it }

/-- The timers whose callbacks the call hands out: as many as it hands out callbacks, from the front of the set. -/
def expired (s : TimerObjects Cb) (probe now : Nat) : List Nat := s.timers.take (s.listExpiredCb probe now).1.length

/-- The time to the earliest timer, or `~0ull`. -/
def getNextTimer (s : TimerObjects Cb) (now : Nat) : Nat × TimerObjects Cb :=
  let timeout := match s.timers with
    | [] => maxUint64
    | next :: _ => if now ≥ (s.object next).next then 0 else (s.object next).next - now
  (timeout, { s with tickled := false })

/-- A call on a timer or on the manager, with the reading of the clock where it makes one. -/
inductive Act (Cb : Type) where
  | addTimer (a now ms : Nat) (cb : Option Cb) (recurring : Bool)
  | cancel (a : Nat)
  | refresh (a now : Nat)
  | reset (a now ms : Nat) (fromNow : Bool)
  | listExpiredCb (probe now : Nat)
deriving DecidableEq, Repr

/-- A cancellation that erases `end()` has no next state. -/
def step (s : TimerObjects Cb) : Act Cb → Option (TimerObjects Cb)
  | .addTimer a now ms cb recurring => some (s.addTimer a now ms cb recurring).2
  | .cancel a => (s.cancel a).map (·.2)
  | .refresh a now => some (s.refresh a now).2
  | .reset a now ms fromNow => some (s.reset a now ms fromNow).2.2
  | .listExpiredCb probe now => some (s.listExpiredCb probe now).2

/-- A new object has the address of no live timer, and a timer is added with a callback. -/
def Ok (s : TimerObjects Cb) : Act Cb → Prop
  | .addTimer a _ _ cb _ => (s.object a).cb = none ∧ cb.isSome
  | .listExpiredCb probe _ => (s.object probe).cb = none
  | _ => True

instance (s : TimerObjects Cb) (act : Act Cb) : Decidable (s.Ok act) := by
  induction act using Act.casesOn <;> unfold Ok <;> infer_instance

/-- A call through a handle, with the reading of the clock where it makes one. -/
inductive Call where
  | cancel
  | refresh (now : Nat)
  | reset (now ms : Nat) (fromNow : Bool)
deriving DecidableEq, Repr

/-- What the call on the timer at `a` returns, and the state it leaves. -/
def call (s : TimerObjects Cb) (a : Nat) : Call → Option (Bool × TimerObjects Cb)
  | .cancel => s.cancel a
  | .refresh now => some (s.refresh a now)
  | .reset now ms fromNow => some ((s.reset a now ms fromNow).1, (s.reset a now ms fromNow).2.2)

/-- The address of the timer object that a call makes. -/
def Act.makes : Act Cb → Option Nat
  | .addTimer a _ _ _ _ | .listExpiredCb a _ => some a
  | _ => none

end TimerObjects
end MyHttp

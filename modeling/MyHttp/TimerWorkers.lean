import MyHttp.TimerObjects

/-! `listExpiredCb` on several workers. A call reads the clock, looks under the read lock whether there are timers, and
    does the rest under the write lock, where it no longer asks; each of the three is one step. -/

namespace MyHttp

open Lib

namespace TimerObjects

variable {Cb : Type}

/-- The part of `listExpiredCb` under the write lock. Only without a roll-over does it look at the first timer, and
    the first of no timers has no next state. -/
def expireLocked (s : TimerObjects Cb) (probe now : Nat) : Option (List (Option Cb) × TimerObjects Cb) :=
  let (rollover, s) := s.detectClockRollover now
  if rollover = false ∧ s.timers = [] then none else
  if rollover = false ∧ ∃ first ∈ s.timers.head?, (s.object first).next > now then some ([], s) else
  let s := s.set probe ⟨false, 0, now, none⟩
  let it := if rollover then s.timers.length else OrderedSet.upperBound (before s.object) s.timers probe
  some (rearm now (s.timers.take it) { s with timers := s.timers.drop it })

/-- A timer that the write lock's part leaves in the set, or puts back. -/
def stays (s : TimerObjects Cb) (probe now : Nat) (b : Nat) : Prop :=
  (s.object b).recurring = true ∨ (s.detectClockRollover now).1 = false ∧
    before (s.set probe ⟨false, 0, now, none⟩).object probe b

instance (s : TimerObjects Cb) (probe now b : Nat) : Decidable (s.stays probe now b) :=
  inferInstanceAs (Decidable (_ ∨ _))

end TimerObjects

/-- Where a worker is in `listExpiredCb`, with its reading of the clock. -/
inductive ExpiryPc where
  | outside
  | entered (now : Nat)
  /-- there were timers -/
  | checked (now : Nat)
deriving DecidableEq, Repr

structure TimerWorkers (Cb : Type) (n : Nat) where
  manager : TimerObjects Cb
  pc : Fin n → ExpiryPc

namespace TimerWorkers

variable {Cb : Type} {n : Nat}

def init (now : Nat) : TimerWorkers Cb n := ⟨.new now, fun _ => .outside⟩

inductive Act (Cb : Type) (n : Nat) where
  | enter (w : Fin n) (now : Nat)
  | check (w : Fin n)
  | expire (w : Fin n) (probe : Nat)
  | addTimer (a now ms : Nat) (cb : Option Cb) (recurring : Bool)
  | cancel (a : Nat)
  | refresh (a now : Nat)
  | reset (a now ms : Nat) (fromNow : Bool)
deriving DecidableEq, Repr

def goto (s : TimerWorkers Cb n) (w : Fin n) (pc : ExpiryPc) : TimerWorkers Cb n :=
  { s with pc := Function.update s.pc w pc }

/-- The probe of `expire` is new memory, so it is no timer of the set. -/
def step (s : TimerWorkers Cb n) : Act Cb n → Option (TimerWorkers Cb n)
  | .enter w now => if s.pc w = .outside then some (s.goto w (.entered now)) else none
  | .check w =>
    match s.pc w with
    | .entered now => some (s.goto w (if s.manager.timers = [] then .outside else .checked now))
    | _ => none
  | .expire w probe =>
    match s.pc w with
    | .checked now =>
      if probe ∈ s.manager.timers then none
      else (s.manager.expireLocked probe now).map fun r => { s with manager := r.2 }.goto w .outside
    | _ => none
  | .addTimer a now ms cb recurring => some { s with manager := (s.manager.addTimer a now ms cb recurring).2 }
  | .cancel a => (s.manager.cancel a).map fun r => { s with manager := r.2 }
  | .refresh a now => some { s with manager := (s.manager.refresh a now).2 }
  | .reset a now ms fromNow => some { s with manager := (s.manager.reset a now ms fromNow).2.2 }

/-- A worker that is about to look at the first timer finds one. -/
def LooksSafely (s : TimerWorkers Cb n) : Prop :=
  ∀ w now, s.pc w = .checked now → (s.manager.detectClockRollover now).1 = false → s.manager.timers ≠ []

/-- The worker has seen timers, and is not at the write lock yet. -/
def between (s : TimerWorkers Cb n) (w : Fin n) : Prop :=
  match s.pc w with
  | .checked _ => True
  | _ => False

instance (s : TimerWorkers Cb n) (w : Fin n) : Decidable (s.between w) := by
  unfold between
  split <;> infer_instance

/-- A step that takes timers out leaves one in the set, when a worker is between the two locks. -/
def LeavesOne (s : TimerWorkers Cb n) : Act Cb n → Prop
  | .cancel a => (∃ v, s.between v) → (s.manager.object a).cb.isSome → ∃ b ∈ s.manager.timers, b ≠ a
  | .expire w probe => (∃ v, v ≠ w ∧ s.between v) →
    match s.pc w with
    | .checked now => ∃ b ∈ s.manager.timers, s.manager.stays probe now b
    | _ => True
  | _ => True

instance (s : TimerWorkers Cb n) (a : Act Cb n) : Decidable (s.LeavesOne a) := by
  unfold LeavesOne
  split
  · infer_instance
  · split <;> infer_instance
  · infer_instance

end TimerWorkers
end MyHttp

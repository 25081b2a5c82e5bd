import MyHttp.Scheduler

/-! The thread a task was scheduled for, followed beside the scheduler. A task is what one call of `schedule` gives; it
    goes on in the entries that `run` or a wake-up puts back for its fiber. -/

namespace MyHttp
namespace Scheduler

/-- The scheduler with the threads that the tasks at hand were scheduled for. -/
structure Affinity (n : Nat) where
  state : State n
  /-- of the entries of the queue, one by one -/
  homes : List (Option Nat)
  /-- of what the worker took last -/
  task : Fin n → Option Nat
  /-- of what the fiber executed last -/
  home : FiberId → Option Nat
  /-- the worker of each slice, and the thread of its task -/
  slices : List (Fin n × Option Nat)

namespace Affinity

variable {n : Nat}

def init (n : Nat) : Affinity n := ⟨.init n, [], fun _ => none, fun _ => none, []⟩

/-- The entries that are new in the queue belong to tasks for these threads. -/
def put (s : Affinity n) (state : State n) (thread : Entry → Option Nat) : Affinity n :=
  { s with state, homes := s.homes ++ (state.queue.drop s.state.queue.length).map thread }

/-- The worker takes the first entry that it may. -/
def take (s : Affinity n) (state : State n) (w : Fin n) : Affinity n :=
  match s.state.queue.findIdx? (s.state.takeable w) with
  | some i =>
    { s with state, homes := s.homes.eraseIdx i, task := Function.update s.task w s.homes[i]?.join }
  | none => { s with state }

/-- The worker begins a slice of its task. -/
def slice (s : Affinity n) (state : State n) (w : Fin n) : Affinity n :=
  match (s.state.workers w).pc with
  | .switch slot _ =>
    { s with state, home := Function.update s.home slot.fiber (s.task w), slices := s.slices ++ [(w, s.task w)] }
  | _ => { s with state }

def step (s : Affinity n) (a : Act n) : Option (Affinity n) :=
  (s.state.step a).map fun state => match a with
    | .worker w .fetch => s.take state w
    | .worker w .switch => s.slice state w
    | .worker w .requeue => s.put state fun _ => s.task w
    | .schedule _ => s.put state Entry.thread
    | .wake f => s.put state fun _ => s.home f
    | _ => { s with state }

/-- What is put back without a thread was not scheduled for one. -/
def PutBackFree (s : Affinity n) : Act n → Prop
  | .worker w .requeue => s.task w = none
  | .wake f => s.home f = none
  | _ => True

instance (s : Affinity n) (a : Act n) : Decidable (s.PutBackFree a) := by
  unfold PutBackFree
  split <;> infer_instance

end Affinity
end Scheduler
end MyHttp

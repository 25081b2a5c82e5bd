import MyHttp.Scheduler
import MyHttp.Lib.Run
import Mathlib.Tactic.SplitIfs

/-! Everything one step of a worker can do (`Moves`), and what it leaves as it is. -/

namespace MyHttp
namespace Scheduler
namespace State

variable {n : Nat} {s s' : State n} {w v : Fin n} {m : Move} {pc : Pc} {k : Worker} {f g : FiberId} {fb : Fiber}

@[simp] theorem setWorker_self : (s.setWorker w k).workers w = k := Function.update_self ..

@[simp] theorem goto_self : (s.goto w pc).workers w = { s.workers w with pc } := Function.update_self ..

@[simp] theorem release_self {slot : Slot} : (s.release w slot).workers w = ⟨.fetch, match slot with
    | .ft _ => (s.workers w).cbFiber
    | .cb _ => none⟩ := Function.update_self ..

@[simp] theorem setFiber_workers : (s.setFiber f fb).workers = s.workers := rfl

theorem setWorker_ne (h : v ≠ w) : (s.setWorker w k).workers v = s.workers v := Function.update_of_ne h ..

theorem setFiber_ne (h : g ≠ f) : (s.setFiber f fb).fibers g = s.fibers g := Function.update_of_ne h ..

@[simp] theorem setFiber_self : (s.setFiber f fb).fibers f = fb := Function.update_self ..

/-- The steps of worker `w`, case by case. -/
inductive Moves (s : State n) (w : Fin n) : Move → State n → Prop
  | fetch {e : Entry} : (s.workers w).pc = .fetch → s.queue.find? (s.takeable w) = some e →
      Moves s w .fetch { s.goto w (.picked e.work) with queue := s.queue.eraseP (s.takeable w) }
  | fetchNone : (s.workers w).pc = .fetch → Moves s w .fetch (s.goto w .idle)
  | dispatchOver {f : FiberId} : (s.workers w).pc = .picked (.fiber f) →
      Moves s w .dispatch (s.goto w .idle)
  | dispatchFiber {f : FiberId} : (s.workers w).pc = .picked (.fiber f) →
      Moves s w .dispatch (s.goto w (.enter (.ft f) none))
  | dispatchReset {c : CallbackId} {f : FiberId} : (s.workers w).pc = .picked (.callback c) →
      (s.workers w).cbFiber = some f →
      Moves s w .dispatch ((s.setFiber f (.new (.task c))).goto w (.enter (.cb f) (some c)))
  | dispatchNew {c : CallbackId} : (s.workers w).pc = .picked (.callback c) → (s.workers w).cbFiber = none →
      Moves s w .dispatch ({ s.setFiber s.nextFiber (.new (.task c)) with nextFiber := s.nextFiber + 1 }.setWorker w
        ⟨.enter (.cb s.nextFiber) (some c), some s.nextFiber⟩)
  | enter {slot : Slot} {starts : Option CallbackId} : (s.workers w).pc = .enter slot starts →
      Moves s w .enter ((s.setFiber slot.fiber { s.fibers slot.fiber with state := .exec }).goto w
        (.switch slot starts))
  | switch {slot : Slot} {starts : Option CallbackId} : (s.workers w).pc = .switch slot starts →
      Moves s w .switch (s.switch w slot)
  | register {slot : Slot} : (s.workers w).pc = .running slot →
      Moves s w .register { s with waiting := slot.fiber :: s.waiting }
  | exit {slot : Slot} {e : Exit} : (s.workers w).pc = .running slot →
      Moves s w (.exit e) ((s.setFiber slot.fiber (e.write (s.fibers slot.fiber))).goto w (.leaving slot))
  | leave {slot : Slot} : (s.workers w).pc = .leaving slot → Moves s w .leave (s.goto w (.back slot))
  | lookReady {slot : Slot} : (s.workers w).pc = .back slot → Moves s w .look (s.goto w (.requeue slot))
  | lookOver {f : FiberId} : (s.workers w).pc = .back (.ft f) → Moves s w .look (s.goto w .fetch)
  | lookRecycle {f : FiberId} : (s.workers w).pc = .back (.cb f) → (s.fibers f).state.over = true →
      Moves s w .look (s.goto w (.recycle f))
  | lookHold {slot : Slot} : (s.workers w).pc = .back slot → Moves s w .look (s.goto w (.hold slot))
  | requeue {slot : Slot} : (s.workers w).pc = .requeue slot →
      Moves s w .requeue ((s.release w slot).push (.fiber slot.fiber none))
  | hold {slot : Slot} : (s.workers w).pc = .hold slot →
      Moves s w .hold ((s.setFiber slot.fiber { s.fibers slot.fiber with state := .hold }).release w slot)
  | recycle {f : FiberId} : (s.workers w).pc = .recycle f →
      Moves s w .recycle ((s.setFiber f (.new .null)).goto w .fetch)
  | idle : (s.workers w).pc = .idle → Moves s w .idle (s.goto w .fetch)

/-- A step of one worker leaves the others where they are. -/
theorem Moves.workers_of_ne (h : Moves s w m s') (hv : v ≠ w) : s'.workers v = s.workers v := by
  cases h with
  | register => rfl
  | _ => exact setWorker_ne hv

theorem reset_inv {fb fb' : Fiber} {body : Body} (h : fb.reset body = some fb') : fb' = .new body := by
  unfold Fiber.reset at h
  split_ifs at h
  exact (Option.some.inj h).symm

theorem act_inv (h : s.act w pc m = some s') (hpc : (s.workers w).pc = pc) : Moves s w m s' := by
  unfold act at h
  split at h
  case h_1 =>
    cases h
    unfold State.fetch
    split
    case h_1 e he => exact .fetch hpc he
    case h_2 => exact .fetchNone hpc
  case h_2 work =>
    unfold State.dispatch at h
    split at h
    case h_1 f =>
      cases h
      split
      · exact .dispatchOver hpc
      · exact .dispatchFiber hpc
    case h_2 c =>
      split at h
      case h_1 f hcb =>
        obtain ⟨fb, hfb, rfl⟩ := Option.map_eq_some_iff.mp h
        rw [reset_inv hfb]
        exact .dispatchReset hpc hcb
      case h_2 hcb =>
        cases h
        exact .dispatchNew hpc hcb
  case h_3 slot starts =>
    unfold State.enter at h
    dsimp only at h
    split_ifs at h
    cases h
    exact .enter hpc
  case h_4 => cases h; exact .switch hpc
  case h_5 => cases h; exact .register hpc
  case h_6 => cases h; exact .exit hpc
  case h_7 => cases h; exact .leave hpc
  case h_8 slot =>
    cases h
    unfold State.look
    dsimp only
    split_ifs with hready hover
    · exact .lookReady hpc
    · cases slot with
      | ft f => exact .lookOver hpc
      | cb f => exact .lookRecycle hpc hover
    · exact .lookHold hpc
  case h_9 => cases h; exact .requeue hpc
  case h_10 => cases h; exact .hold hpc
  case h_11 f =>
    obtain ⟨fb, hfb, rfl⟩ := Option.map_eq_some_iff.mp h
    rw [reset_inv hfb]
    exact .recycle hpc
  case h_12 => cases h; exact .idle hpc
  case h_13 => cases h

/-! ### What comes from outside -/

theorem push_workers {i : Item} : (s.push i).workers = s.workers := by
  cases i <;> rfl

theorem push_fibers {i : Item} : (s.push i).fibers = s.fibers := by
  cases i <;> rfl

theorem pushAll_workers {items : List Item} : (items.foldl push s).workers = s.workers := by
  induction items generalizing s with
  | nil => rfl
  | cons i items ih => rw [List.foldl_cons, ih, push_workers]

theorem pushAll_fibers {items : List Item} : (items.foldl push s).fibers = s.fibers := by
  induction items generalizing s with
  | nil => rfl
  | cons i items ih => rw [List.foldl_cons, ih, push_fibers]

/-- What is scheduled comes behind what is queued. -/
theorem schedule_queue {items : List Item} (h : s.step (.schedule items) = some s') :
    ∃ entries, s'.queue = s.queue ++ entries := by
  simp only [step] at h
  split_ifs at h with hknown
  cases h
  clear hknown
  induction items generalizing s with
  | nil => exact ⟨[], (List.append_nil _).symm⟩
  | cons i items ih =>
    obtain ⟨entries, hrest⟩ := ih (s := s.push i)
    rw [List.foldl_cons, hrest]
    cases i with
    | fiber f thread => exact ⟨⟨.fiber f, thread⟩ :: entries, List.append_assoc ..⟩
    | callback thread => exact ⟨⟨.callback s.nextCallback, thread⟩ :: entries, List.append_assoc ..⟩

/-- What is not a step of a worker moves no worker. -/
theorem step_workers {a : Act n} (h : s.step a = some s') (ha : ∀ w m, a ≠ .worker w m) : s'.workers = s.workers := by
  cases a with
  | worker w m => exact absurd rfl (ha w m)
  | newFiber =>
    cases h
    rfl
  | schedule items =>
    simp only [step] at h
    split_ifs at h
    cases h
    exact pushAll_workers
  | wake f =>
    simp only [step] at h
    split_ifs at h
    cases h
    exact push_workers

end State
end Scheduler
end MyHttp

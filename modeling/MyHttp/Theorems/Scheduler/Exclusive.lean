import MyHttp.Theorems.Scheduler.Steps

/-! No fiber on two workers. The guard of `run` is the state `EXEC`: it holds while a worker is in the fiber, but not
    between taking the fiber and marking it, nor from the write of the next state to the end of the bookkeeping
    after `swapIn`, nor for a `cb_fiber` that is kept. Where no fiber is taken out of the queue while it is in such
    a window, every fiber belongs to one worker at most. -/

namespace MyHttp
namespace Scheduler

open Lib.Run

variable {n : Nat}

/-! ### Which fibers a worker has -/

def Slot.ftFiber : Slot → Option FiberId
  | .ft f => some f
  | .cb _ => none

def Slot.cbFiber : Slot → Option FiberId
  | .ft _ => none
  | .cb f => some f

/-- The fiber in `ft.fiber`, until `run` is done with it. -/
def Pc.ftFiber : Pc → Option FiberId
  | .picked (.fiber f) => some f
  | .enter slot _ | .switch slot _ | .running slot | .leaving slot | .back slot | .requeue slot | .hold slot =>
    slot.ftFiber
  | _ => none

/-- The fiber in `cb_fiber`, while `run` works with it. -/
def Pc.cbFiber : Pc → Option FiberId
  | .enter slot _ | .switch slot _ | .running slot | .leaving slot | .back slot | .requeue slot | .hold slot =>
    slot.cbFiber
  | .recycle f => some f
  | _ => none

/-- The fiber that is marked `EXEC` by the worker. -/
def Pc.marked : Pc → Option FiberId
  | .switch slot _ | .running slot => some slot.fiber
  | _ => none

namespace Worker

/-- The worker is not done with `f`. -/
def Owns (k : Worker) (f : FiberId) : Prop := k.pc.ftFiber = some f ∨ k.cbFiber = some f

/-- The worker has marked `f`, and `f` has not written its next state. -/
def Marks (k : Worker) (f : FiberId) : Prop := k.pc.marked = some f

/-- The context of `f` is executed by the worker, or not yet saved by it. -/
def Executes (k : Worker) (f : FiberId) : Prop :=
  match k.pc with
  | .running slot | .leaving slot => slot.fiber = f
  | _ => False

/-- The worker switches to the context of `f` next. -/
def SwitchesTo (k : Worker) (f : FiberId) : Prop :=
  match k.pc with
  | .switch slot _ => slot.fiber = f
  | _ => False

instance (k : Worker) (f : FiberId) : Decidable (k.Owns f) := inferInstanceAs (Decidable (_ ∨ _))

instance (k : Worker) (f : FiberId) : Decidable (k.Marks f) := inferInstanceAs (Decidable (_ = _))

end Worker

namespace State

variable {s s' : State n} {w v : Fin n} {m : Move} {f g : FiberId}

/-- No fiber is executed by two workers, or switched to before it is saved. -/
def Exclusive (s : State n) : Prop :=
  ∀ w v f, w ≠ v → (s.workers w).Executes f → ¬(s.workers v).Executes f ∧ ¬(s.workers v).SwitchesTo f

/-- The entry that is taken out of the queue is not a fiber in a hand-over window: whoever has it has marked it. -/
def HandedOver (s : State n) : Act n → Prop
  | .worker w .fetch =>
    match s.queue.find? (s.takeable w) with
    | some ⟨.fiber f, _⟩ => ∀ v, (s.workers v).Owns f → (s.workers v).Marks f
    | _ => True
  | _ => True

instance (s : State n) (a : Act n) : Decidable (HandedOver s a) := by
  induction a using Act.casesOn with
  | worker w m =>
    induction m using Move.casesOn <;> dsimp only [HandedOver]
    case fetch =>
      induction s.queue.find? (s.takeable w) using Option.casesOn with
      | none => infer_instance
      | some entry =>
        induction entry using Entry.casesOn with
        | mk work thread => induction work using Work.casesOn <;> infer_instance
    all_goals infer_instance
  | _ => unfold HandedOver; infer_instance

/-! ### The invariant -/

/-- Every fiber belongs to one worker at most, and is `EXEC` while it runs. -/
structure Owned (s : State n) : Prop where
  one : ∀ w v f, (s.workers w).Owns f → (s.workers v).Owns f → w = v
  apart : ∀ w f, (s.workers w).pc.ftFiber = some f → (s.workers w).cbFiber ≠ some f
  kept : ∀ w f, (s.workers w).pc.cbFiber = some f → (s.workers w).cbFiber = some f
  marked : ∀ w f, (s.workers w).Marks f → (s.fibers f).state = .exec
  known : ∀ w f, (s.workers w).Owns f → f < s.nextFiber
  queued : ∀ e ∈ s.queue, ∀ f, e.work = .fiber f → f < s.nextFiber
  waiting : ∀ f ∈ s.waiting, f < s.nextFiber

theorem owned_init (n : Nat) : Owned (init n) := by
  refine ⟨?_, ?_, ?_, ?_, ?_, ?_, ?_⟩ <;>
    simp [init, Worker.Owns, Worker.Marks, Pc.ftFiber, Pc.cbFiber, Pc.marked]

theorem Owned.owns_of_slot {k : Worker} {slot : Slot} (hft : k.pc.ftFiber = slot.ftFiber)
    (hcb : ∀ f, slot.cbFiber = some f → k.cbFiber = some f) : k.Owns slot.fiber := by
  cases slot with
  | ft f => exact Or.inl hft
  | cb f => exact Or.inr (hcb f rfl)

/-- The fiber a worker works with is its own. -/
theorem Owned.owns (h : Owned s) {slot : Slot} (hft : (s.workers w).pc.ftFiber = slot.ftFiber)
    (hcb : (s.workers w).pc.cbFiber = slot.cbFiber) : (s.workers w).Owns slot.fiber :=
  owns_of_slot hft fun f hf => h.kept w f (hcb.trans hf)

theorem Owned.owns_of_executes (h : Owned s) (he : (s.workers w).Executes f) : (s.workers w).Owns f := by
  unfold Worker.Executes at he
  split at he
  case h_1 slot hpc =>
    exact he ▸ h.owns (by rw [hpc]; rfl) (by rw [hpc]; rfl)
  case h_2 slot hpc =>
    exact he ▸ h.owns (by rw [hpc]; rfl) (by rw [hpc]; rfl)
  case h_3 => exact he.elim

theorem Owned.owns_of_switchesTo (h : Owned s) (he : (s.workers w).SwitchesTo f) : (s.workers w).Owns f := by
  unfold Worker.SwitchesTo at he
  split at he
  case h_1 slot starts hpc => exact he ▸ h.owns (by rw [hpc]; rfl) (by rw [hpc]; rfl)
  case h_2 => exact he.elim

theorem Owned.owns_of_marks (h : Owned s) (hm : (s.workers w).Marks f) : (s.workers w).Owns f := by
  have hslot : ∃ slot : Slot, slot.fiber = f ∧ (s.workers w).pc.ftFiber = slot.ftFiber ∧
      (s.workers w).pc.cbFiber = slot.cbFiber := by
    unfold Worker.Marks at hm
    cases hpc : (s.workers w).pc <;> rw [hpc] at hm <;> simp only [Pc.marked, reduceCtorEq] at hm
    all_goals exact ⟨_, Option.some.inj hm, rfl, rfl⟩
  obtain ⟨slot, rfl, hft, hcb⟩ := hslot
  exact h.owns hft hcb

theorem Owned.exclusive (h : Owned s) : Exclusive s := fun _ _ _ hne he =>
  ⟨fun he' => hne (h.one _ _ _ (h.owns_of_executes he) (h.owns_of_executes he')),
    fun hs => hne (h.one _ _ _ (h.owns_of_executes he) (h.owns_of_switchesTo hs))⟩

/-- An entry that may be taken is no fiber of any worker. -/
theorem Owned.unowned (h : Owned s) (hok : HandedOver s (.worker w .fetch)) {e : Entry}
    (he : s.queue.find? (s.takeable w) = some e) (hf : e.work = .fiber f) : ∀ v, ¬(s.workers v).Owns f := by
  intro v hv
  obtain ⟨work, thread⟩ := e
  obtain rfl : work = .fiber f := hf
  rw [HandedOver, he] at hok
  have hexec := h.marked v f (hok v hv)
  have htake := List.find?_some he
  simp [takeable, hexec] at htake

/-! ### One step -/

/-- A step of `w` in which it gains only fibers nobody has, and changes no fiber of another worker. -/
theorem Owned.of_local (h : Owned s) (w : Fin n) (others : ∀ v ≠ w, s'.workers v = s.workers v)
    (gains : ∀ f, (s'.workers w).Owns f →
      (s.workers w).Owns f ∨ (∀ v, ¬(s.workers v).Owns f) ∧ f < s'.nextFiber)
    (apart : ∀ f, (s'.workers w).pc.ftFiber = some f → (s'.workers w).cbFiber ≠ some f)
    (kept : ∀ f, (s'.workers w).pc.cbFiber = some f → (s'.workers w).cbFiber = some f)
    (marked : ∀ f, (s'.workers w).Marks f → (s'.fibers f).state = .exec)
    (fibers : ∀ v ≠ w, ∀ f, (s.workers v).Owns f → s'.fibers f = s.fibers f)
    (next : s.nextFiber ≤ s'.nextFiber)
    (queued : ∀ e ∈ s'.queue, ∀ f, e.work = .fiber f → f < s'.nextFiber)
    (waiting : ∀ f ∈ s'.waiting, f < s'.nextFiber) : Owned s' := by
  have howns : ∀ v ≠ w, ∀ f, (s'.workers v).Owns f → (s.workers v).Owns f := fun v hv f hf => by
    rwa [others v hv] at hf
  refine ⟨fun v v' f hv hv' => ?_, fun v f => ?_, fun v f => ?_, fun v f hm => ?_, fun v f hf => ?_, queued, waiting⟩
  · by_cases hvw : v = w <;> by_cases hvw' : v' = w
    · rw [hvw, hvw']
    · subst hvw
      rcases gains f hv with hg | ⟨hg, -⟩
      · exact h.one _ _ f hg (howns v' hvw' f hv')
      · exact absurd (howns v' hvw' f hv') (hg v')
    · subst hvw'
      rcases gains f hv' with hg | ⟨hg, -⟩
      · exact h.one _ _ f (howns v hvw f hv) hg
      · exact absurd (howns v hvw f hv) (hg v)
    · exact h.one _ _ f (howns v hvw f hv) (howns v' hvw' f hv')
  · rcases eq_or_ne v w with rfl | hne
    · exact apart f
    · rw [others v hne]
      exact h.apart v f
  · rcases eq_or_ne v w with rfl | hne
    · exact kept f
    · rw [others v hne]
      exact h.kept v f
  · rcases eq_or_ne v w with rfl | hne
    · exact marked f hm
    · rw [others v hne] at hm
      rw [fibers v hne f (h.owns_of_marks hm)]
      exact h.marked v f hm
  · rcases eq_or_ne v w with rfl | hne
    · rcases gains f hf with hg | ⟨-, hg⟩
      · exact Nat.lt_of_lt_of_le (h.known v f hg) next
      · exact hg
    · exact Nat.lt_of_lt_of_le (h.known v f (howns v hne f hf)) next

/-- A step in which `w` gains nothing and writes to its own fiber at most. -/
theorem Owned.of_own (h : Owned s) (w : Fin n) (others : ∀ v ≠ w, s'.workers v = s.workers v)
    (hft : ∀ f, (s'.workers w).pc.ftFiber = some f → (s.workers w).pc.ftFiber = some f)
    (hcb : ∀ f, (s'.workers w).cbFiber = some f → (s.workers w).cbFiber = some f)
    (kept : ∀ f, (s'.workers w).pc.cbFiber = some f → (s'.workers w).cbFiber = some f)
    (marked : ∀ f, (s'.workers w).Marks f → (s'.fibers f).state = .exec)
    (fibers : ∀ f, s'.fibers f = s.fibers f ∨ (s.workers w).Owns f) (next : s'.nextFiber = s.nextFiber)
    (queued : ∀ e ∈ s'.queue, e ∈ s.queue ∨ ∃ f, e.work = .fiber f ∧ (s.workers w).Owns f)
    (waiting : ∀ f ∈ s'.waiting, f ∈ s.waiting ∨ (s.workers w).Owns f) : Owned s' := by
  refine h.of_local w others (fun f hf => Or.inl (hf.imp (hft f) (hcb f))) (fun f hf hf' => ?_) kept marked
    (fun v hv f hf => ?_) (Nat.le_of_eq next.symm) (fun e he f hf => ?_) fun f hf => ?_
  · exact h.apart w f (hft f hf) (hcb f hf')
  · exact (fibers f).resolve_right fun hw => hv (h.one v w f hf hw)
  · rw [next]
    rcases queued e he with he | ⟨g, hg, hown⟩
    · exact h.queued e he f hf
    · obtain rfl : g = f := by simpa [hf, eq_comm] using hg
      exact h.known w g hown
  · rw [next]
    rcases waiting f hf with hf | hown
    · exact h.waiting f hf
    · exact h.known w f hown

/-- A write to a fiber of a worker changes only that. -/
theorem setFiber_owned {k : Worker} {fb : Fiber} (hown : k.Owns g) (f : FiberId) :
    (s.setFiber g fb).fibers f = s.fibers f ∨ k.Owns f := by
  rcases eq_or_ne f g with rfl | hne
  · exact Or.inr hown
  · exact Or.inl (setFiber_ne hne)

/-- The step of a worker writes to its own fibers, or to one that is just made. -/
theorem Owned.frame (h : Owned s) (hm : Moves s w m s') (f : FiberId) :
    s'.fibers f = s.fibers f ∨ (s.workers w).Owns f ∨ f = s.nextFiber := by
  cases hm with
  | dispatchReset _ hcb => exact (setFiber_owned (Or.inr hcb) f).imp_right Or.inl
  | dispatchNew =>
    rcases eq_or_ne f s.nextFiber with rfl | hne
    · exact Or.inr (Or.inr rfl)
    · exact Or.inl (setFiber_ne hne)
  | enter hpc | switch hpc | exit hpc | hold hpc =>
    have hown := h.owns (by rw [hpc]; rfl : (s.workers w).pc.ftFiber = Slot.ftFiber _) (by rw [hpc]; rfl)
    exact (setFiber_owned hown f).imp_right Or.inl
  | recycle hpc =>
    have hown : (s.workers w).Owns _ := Or.inr (h.kept w _ (by rw [hpc]; rfl))
    exact (setFiber_owned hown f).imp_right Or.inl
  | _ => exact Or.inl rfl

/-- No other worker sees that write. -/
theorem Owned.frame_others (h : Owned s) (hm : Moves s w m s') {v : Fin n} (hv : v ≠ w)
    (hf : (s.workers v).Owns f) : s'.fibers f = s.fibers f := by
  rcases h.frame hm f with he | hw | rfl
  · exact he
  · exact absurd (h.one v w f hf hw) hv
  · exact absurd (h.known v _ hf) (Nat.lt_irrefl _)

theorem Owned.fetch (h : Owned s) (hok : HandedOver s (.worker w .fetch)) {e : Entry}
    (he : s.queue.find? (s.takeable w) = some e) :
    Owned { s.goto w (.picked e.work) with queue := s.queue.eraseP (s.takeable w) } := by
  have hfree := fun f hf => h.unowned hok he (f := f) hf
  have hmem := List.mem_of_find?_eq_some he
  have hft : ∀ f, (Pc.picked e.work).ftFiber = some f → e.work = .fiber f := by
    intro f hf
    cases hw : e.work <;> rw [hw] at hf
    · exact congrArg _ (Option.some.inj hf)
    · cases hf
  refine h.of_local w (fun v hv => setWorker_ne hv) (fun f hf => ?_) (fun f hf hcb => ?_) ?_ ?_
    (fun _ _ _ _ => rfl) (Nat.le_refl _) (fun e' he' => h.queued e' (List.mem_of_mem_eraseP he')) h.waiting
  · rcases hf with hf | hf
    · rw [goto_self] at hf
      exact Or.inr ⟨hfree f (hft f hf), h.queued e hmem f (hft f hf)⟩
    · rw [goto_self] at hf
      exact Or.inl (Or.inr hf)
  · rw [goto_self] at hf hcb
    exact hfree f (hft f hf) w (Or.inr hcb)
  · simp [Pc.cbFiber]
  · simp [Worker.Marks, Pc.marked]

/-- The fiber that is made for a callback is new to everybody. -/
theorem Owned.dispatchNew (h : Owned s) {c : CallbackId} :
    Owned ({ s.setFiber s.nextFiber (.new (.task c)) with nextFiber := s.nextFiber + 1 }.setWorker w
      ⟨.enter (.cb s.nextFiber) (some c), some s.nextFiber⟩) := by
  have hfree : ∀ v, ¬(s.workers v).Owns s.nextFiber := fun v hv => Nat.lt_irrefl _ (h.known v _ hv)
  refine h.of_local w (fun v hv => setWorker_ne hv) (fun f hf => ?_) ?_ ?_ ?_ (fun v _ f hf => ?_) (Nat.le_succ _)
    (fun e he f hf => Nat.lt_succ_of_lt (h.queued e he f hf)) fun f hf => Nat.lt_succ_of_lt (h.waiting f hf)
  · rw [setWorker_self] at hf
    obtain rfl : s.nextFiber = f := by simpa [Worker.Owns, Pc.ftFiber, Slot.ftFiber] using hf
    exact Or.inr ⟨hfree, Nat.lt_succ_self _⟩
  · simp [Pc.ftFiber, Slot.ftFiber]
  · simp [Pc.cbFiber, Slot.cbFiber]
  · simp [Worker.Marks, Pc.marked]
  · exact setFiber_ne fun hf' => hfree v (hf' ▸ hf)

/-- Every step of a worker keeps the invariant, when no fiber is taken in a hand-over window. -/
theorem Owned.moves (h : Owned s) (hm : Moves s w m s') (hok : HandedOver s (.worker w m)) : Owned s' := by
  have hkept := h.kept w
  cases hm with
  | fetch _ he => exact h.fetch hok he
  | dispatchNew => exact h.dispatchNew
  | fetchNone hpc | dispatchOver hpc | dispatchFiber hpc | leave hpc | lookReady hpc | lookOver hpc
  | lookRecycle hpc | lookHold hpc | idle hpc =>
    rw [hpc] at hkept
    refine h.of_own w (fun v hv => setWorker_ne hv) ?_ ?_ ?_ ?_ (fun _ => Or.inl rfl) rfl
      (fun _ he => Or.inl he) (fun _ hf => Or.inl hf) <;>
      simp_all [Worker.Marks, Pc.ftFiber, Pc.cbFiber, Pc.marked, Slot.ftFiber, Slot.cbFiber]
  | @dispatchReset c f hpc hcb =>
    have hown : (s.workers w).Owns f := Or.inr hcb
    refine h.of_own w (fun v hv => setWorker_ne hv) ?_ ?_ ?_ ?_ (fun g => ?_) rfl
      (fun _ he => Or.inl he) (fun _ hf => Or.inl hf)
    · simp [Pc.ftFiber, Slot.ftFiber]
    · simp
    · simpa [Pc.cbFiber, Slot.cbFiber] using hcb
    · simp [Worker.Marks, Pc.marked]
    · exact setFiber_owned hown g
  | @enter slot starts hpc =>
    have hown := h.owns (by rw [hpc]; rfl : (s.workers w).pc.ftFiber = slot.ftFiber) (by rw [hpc]; rfl)
    rw [hpc] at hkept
    refine h.of_own w (fun v hv => setWorker_ne hv) ?_ ?_ ?_ ?_ (fun g => ?_) rfl
      (fun _ he => Or.inl he) (fun _ hf => Or.inl hf)
    · simp [Pc.ftFiber, hpc]
    · simp
    · simpa [Pc.cbFiber] using hkept
    · rintro f hf
      obtain rfl : slot.fiber = f := by simpa [Worker.Marks, Pc.marked] using hf
      simp [goto, setWorker]
    · exact setFiber_owned hown g
  | @switch slot starts hpc =>
    have hown := h.owns (by rw [hpc]; rfl : (s.workers w).pc.ftFiber = slot.ftFiber) (by rw [hpc]; rfl)
    have hexec := h.marked w slot.fiber (by rw [Worker.Marks, hpc]; rfl)
    rw [hpc] at hkept
    refine h.of_own w (fun v hv => setWorker_ne hv) ?_ ?_ ?_ ?_ (fun g => ?_) rfl
      (fun _ he => Or.inl he) (fun _ hf => Or.inl hf)
    · simp [State.switch, Pc.ftFiber, hpc]
    · simp [State.switch]
    · simpa [State.switch, Pc.cbFiber] using hkept
    · rintro f hf
      obtain rfl : slot.fiber = f := by simpa [State.switch, Worker.Marks, Pc.marked] using hf
      simpa [State.switch, goto, setWorker] using hexec
    · exact setFiber_owned hown g
  | @register slot hpc =>
    have hown := h.owns (by rw [hpc]; rfl : (s.workers w).pc.ftFiber = slot.ftFiber) (by rw [hpc]; rfl)
    refine h.of_own w (fun _ _ => rfl) (fun _ => id) (fun _ => id) hkept (h.marked w) (fun _ => Or.inl rfl) rfl
      (fun _ he => Or.inl he) fun f hf => ?_
    rcases List.mem_cons.mp hf with rfl | hf
    · exact Or.inr hown
    · exact Or.inl hf
  | @exit slot e hpc =>
    have hown := h.owns (by rw [hpc]; rfl : (s.workers w).pc.ftFiber = slot.ftFiber) (by rw [hpc]; rfl)
    rw [hpc] at hkept
    refine h.of_own w (fun v hv => setWorker_ne hv) ?_ ?_ ?_ ?_ (fun g => setFiber_owned hown g) rfl
      (fun _ he => Or.inl he) (fun _ hf => Or.inl hf)
    · simp [Pc.ftFiber, hpc]
    · simp
    · simpa [Pc.cbFiber] using hkept
    · simp [Worker.Marks, Pc.marked]
  | @requeue slot hpc =>
    have hown := h.owns (by rw [hpc]; rfl : (s.workers w).pc.ftFiber = slot.ftFiber) (by rw [hpc]; rfl)
    refine h.of_own w (fun v hv => setWorker_ne hv) ?_ ?_ ?_ ?_ (fun _ => Or.inl rfl) rfl (fun e he => ?_)
      (fun _ hf => Or.inl hf)
    · simp [push, Pc.ftFiber]
    · cases slot <;> simp [push]
    · simp [push, Pc.cbFiber]
    · simp [push, Worker.Marks, Pc.marked]
    · refine (List.mem_append.mp he).imp_right fun he => ⟨slot.fiber, ?_, hown⟩
      rw [List.mem_singleton.mp he]
  | @hold slot hpc =>
    have hown := h.owns (by rw [hpc]; rfl : (s.workers w).pc.ftFiber = slot.ftFiber) (by rw [hpc]; rfl)
    refine h.of_own w (fun v hv => setWorker_ne hv) ?_ ?_ ?_ ?_ (fun g => setFiber_owned hown g) rfl
      (fun _ he => Or.inl he) (fun _ hf => Or.inl hf)
    · simp [Pc.ftFiber]
    · cases slot <;> simp
    · simp [Pc.cbFiber]
    · simp [Worker.Marks, Pc.marked]
  | @recycle f hpc =>
    have hown : (s.workers w).Owns f := Or.inr (hkept f (by rw [hpc]; rfl))
    refine h.of_own w (fun v hv => setWorker_ne hv) ?_ ?_ ?_ ?_ (fun g => setFiber_owned hown g) rfl
      (fun _ he => Or.inl he) (fun _ hf => Or.inl hf)
    · simp [Pc.ftFiber]
    · simp
    · simp [Pc.cbFiber]
    · simp [Worker.Marks, Pc.marked]

/-- What is scheduled from outside belongs to nobody, or to whom it belonged before. -/
theorem Owned.push (h : Owned s) {i : Item} (hi : i.known s.nextFiber = true) : Owned (s.push i) := by
  cases i with
  | fiber f thread =>
    refine ⟨h.one, h.apart, h.kept, h.marked, h.known, fun e he g hg => ?_, h.waiting⟩
    rcases List.mem_append.mp he with he | he
    · exact h.queued e he g hg
    · obtain rfl : f = g := by simpa [List.mem_singleton.mp he] using hg
      exact of_decide_eq_true hi
  | callback thread =>
    refine ⟨h.one, h.apart, h.kept, h.marked, h.known, fun e he g hg => ?_, h.waiting⟩
    rcases List.mem_append.mp he with he | he
    · exact h.queued e he g hg
    · simp [List.mem_singleton.mp he] at hg

theorem push_nextFiber {i : Item} : (s.push i).nextFiber = s.nextFiber := by
  cases i <;> rfl

theorem Owned.pushAll {items : List Item} (h : Owned s) (hi : ∀ i ∈ items, i.known s.nextFiber = true) :
    Owned (items.foldl State.push s) := by
  induction items generalizing s with
  | nil => exact h
  | cons i items ih =>
    refine ih (h.push (hi i List.mem_cons_self)) fun j hj => ?_
    rw [push_nextFiber]
    exact hi j (List.mem_cons_of_mem i hj)

theorem Owned.step {a : Act n} (h : Owned s) (hok : HandedOver s a) (hs : s.step a = some s') : Owned s' := by
  cases a with
  | worker w m => exact h.moves (act_inv hs rfl) hok
  | newFiber =>
    cases hs
    refine ⟨h.one, h.apart, h.kept, fun v f hf => ?_, fun v f hf => Nat.lt_succ_of_lt (h.known v f hf),
      fun e he f hf => Nat.lt_succ_of_lt (h.queued e he f hf), fun f hf => Nat.lt_succ_of_lt (h.waiting f hf)⟩
    have hne : f ≠ s.nextFiber := fun he => Nat.lt_irrefl _ (he ▸ h.known v f (h.owns_of_marks hf))
    exact (congrArg Fiber.state (setFiber_ne hne)).trans (h.marked v f hf)
  | schedule items =>
    simp only [State.step] at hs
    split_ifs at hs with hknown
    cases hs
    exact h.pushAll (List.all_eq_true.mp hknown)
  | wake f =>
    simp only [State.step] at hs
    split_ifs at hs with hmem
    cases hs
    have herase : Owned { s with waiting := s.waiting.erase f } :=
      ⟨h.one, h.apart, h.kept, h.marked, h.known, h.queued, fun g hg => h.waiting g (List.mem_of_mem_erase hg)⟩
    exact herase.push (decide_eq_true (h.waiting f hmem))

end State
end Scheduler
end MyHttp

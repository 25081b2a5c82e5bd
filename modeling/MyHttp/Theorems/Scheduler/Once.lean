import MyHttp.Theorems.Scheduler.Exclusive
import MyHttp.Lib.Count

/-! Callbacks are started once. A callback is in the queue, in the hands of a worker, or started: the three counts
    add up to one from `schedule` on. A `cb_fiber` is reset only when it is `INIT`, `TERM` or `EXCEPT`. Both
    rest on the fibers being handed over properly. -/

namespace MyHttp
namespace Scheduler

open Lib.Run Lib.Count

variable {n : Nat}

/-! ### Stages -/

namespace Worker

/-- The callback `c` has been put into the fiber `f`, and has not been started. -/
def Loads (k : Worker) (f : FiberId) (c : CallbackId) : Prop :=
  k.pc = .enter (.cb f) (some c) ∨ k.pc = .switch (.cb f) (some c)

/-- What the code around `cb_fiber` relies on. -/
structure Staged (fibers : FiberId → Fiber) (k : Worker) : Prop where
  loaded : ∀ slot c, k.pc = .enter slot (some c) ∨ k.pc = .switch slot (some c) →
    ∃ f, slot = .cb f ∧ (fibers f).body = .task c ∧ (fibers f).fresh = true
  plain : ∀ slot, k.pc = .enter slot none ∨ k.pc = .switch slot none → ∃ f, slot = .ft f
  resting : k.pc.cbFiber = none → ∀ f ∈ k.cbFiber, (fibers f).state = .init
  recycling : ∀ f, k.pc = .recycle f → (fibers f).state.over = true

theorem Staged.congr {fibers fibers' : FiberId → Fiber} {k : Worker} (h : Staged fibers k)
    (hkept : ∀ f, k.pc.cbFiber = some f → k.cbFiber = some f)
    (hf : ∀ f, k.Owns f → fibers' f = fibers f) : Staged fibers' k := by
  refine ⟨fun slot c hpc => ?_, h.plain, fun hnone f hcb => ?_, fun f hpc => ?_⟩
  · obtain ⟨f, rfl, hbody, hfresh⟩ := h.loaded slot c hpc
    have hown : k.Owns f := Or.inr (hkept f (by rcases hpc with hpc | hpc <;> rw [hpc] <;> rfl))
    exact ⟨f, rfl, by rw [hf f hown]; exact hbody, by rw [hf f hown]; exact hfresh⟩
  · rw [hf f (Or.inr hcb)]
    exact h.resting hnone f hcb
  · rw [hf f (Or.inr (hkept f (by rw [hpc]; rfl)))]
    exact h.recycling f hpc

/-- A worker that is not about to switch to a fiber, and keeps its `cb_fiber` as it was. -/
theorem Staged.of_pc {fibers : FiberId → Fiber} {k : Worker} (h : k.Staged fibers) {pc : Pc}
    (henter : ∀ slot starts, pc ≠ .enter slot starts ∧ pc ≠ .switch slot starts) (hrecycle : ∀ f, pc ≠ .recycle f)
    (hcb : pc.cbFiber = none → k.pc.cbFiber = none) : Staged fibers { k with pc } :=
  ⟨fun slot _ hpc => (hpc.elim (henter slot _).1 (henter slot _).2).elim,
    fun slot hpc => (hpc.elim (henter slot _).1 (henter slot _).2).elim, fun hnone => h.resting (hcb hnone),
    fun f hpc => (hrecycle f hpc).elim⟩

end Worker

namespace State

variable {s s' : State n} {w v : Fin n} {m : Move} {f : FiberId} {c : CallbackId}

/-- The assertion in `Fiber::reset` holds wherever a worker is about to call it. -/
def ResetSafe (s : State n) : Prop := ∀ w,
  match (s.workers w).pc with
  | .picked (.callback _) => ∀ f ∈ (s.workers w).cbFiber, (s.fibers f).resettable = true
  | .recycle f => (s.fibers f).resettable = true
  | _ => True

/-- The workers are staged, and a fiber that is to start a callback is loaded with it by a worker. -/
structure Staged (s : State n) : Prop where
  owned : Owned s
  workers : ∀ w, (s.workers w).Staged s.fibers
  fresh : ∀ f c, (s.fibers f).fresh = true → (s.fibers f).body = .task c → ∃ w, (s.workers w).Loads f c

theorem staged_init (n : Nat) : Staged (init n) := by
  refine ⟨owned_init n, fun w => ⟨?_, ?_, ?_, ?_⟩, ?_⟩ <;> simp [init, Fiber.new]

theorem Staged.resetSafe (h : Staged s) : ResetSafe s := by
  intro w
  have hw := h.workers w
  split
  case h_1 c hpc =>
    intro f hf
    rw [Fiber.resettable, hw.resting (by rw [hpc]; rfl) f hf]
    rfl
  case h_2 f hpc =>
    have hover := hw.recycling f hpc
    rw [FiberState.over, Bool.or_eq_true] at hover
    rw [Fiber.resettable, Bool.or_eq_true]
    exact Or.inl (by simpa using hover)
  case h_3 => trivial

/-- A step of `w`: it is enough to look at `w`, and at the fibers it can write. -/
theorem Staged.of_move (h : Staged s) (hm : Moves s w m s') (ho : Owned s')
    (hw : (s'.workers w).Staged s'.fibers)
    (hfresh : ∀ f c, (s'.fibers f).fresh = true → (s'.fibers f).body = .task c →
      (s'.workers w).Loads f c ∨ s'.fibers f = s.fibers f ∧ ¬(s.workers w).Loads f c) : Staged s' := by
  refine ⟨ho, fun v => ?_, fun f c hf hc => ?_⟩
  · rcases eq_or_ne v w with rfl | hne
    · exact hw
    · rw [hm.workers_of_ne hne]
      exact (h.workers v).congr (h.owned.kept v) fun f hf => h.owned.frame_others hm hne hf
  · rcases hfresh f c hf hc with hl | ⟨he, hnot⟩
    · exact ⟨w, hl⟩
    · rw [he] at hf hc
      obtain ⟨v, hv⟩ := h.fresh f c hf hc
      have hne : v ≠ w := fun hvw => hnot (hvw ▸ hv)
      exact ⟨v, by rw [hm.workers_of_ne hne]; exact hv⟩

/-- A fiber of `w` that is to start a callback is loaded by `w`. -/
theorem Staged.loads (h : Staged s) (hown : (s.workers w).Owns f) (hfresh : (s.fibers f).fresh = true)
    (hbody : (s.fibers f).body = .task c) : (s.workers w).Loads f c := by
  obtain ⟨v, hv⟩ := h.fresh f c hfresh hbody
  have hcb : (s.workers v).pc.cbFiber = some f := by rcases hv with hv | hv <;> rw [hv] <;> rfl
  rwa [h.owned.one w v f hown (Or.inr (h.owned.kept v f hcb))]

/-- A write to the fiber of a slot leaves the `cb_fiber` at rest, when there is one beside it. -/
theorem Staged.resting_write (h : Staged s) {slot : Slot} (hft : (s.workers w).pc.ftFiber = slot.ftFiber)
    (hcb : (s.workers w).pc.cbFiber = slot.cbFiber) (fb : Fiber) (hnone : slot.cbFiber = none) :
    ∀ f ∈ (s.workers w).cbFiber, ((s.setFiber slot.fiber fb).fibers f).state = .init := by
  intro f hf
  cases slot with
  | ft g =>
    have hne : f ≠ g := fun he => h.owned.apart w g hft (he ▸ hf)
    exact (congrArg Fiber.state (setFiber_ne hne)).trans ((h.workers w).resting (hcb.trans hnone) f hf)
  | cb g => cases hnone

/-- A write of `w` to its fiber that does not make it start another callback. -/
theorem Staged.of_write (h : Staged s) (hm : Moves s w m s') (ho : Owned s')
    (hw : (s'.workers w).Staged s'.fibers) {fb : Fiber} (hown : (s.workers w).Owns f)
    (hfibers : s'.fibers = (s.setFiber f fb).fibers)
    (hwrite : ∀ c, fb.fresh = true → fb.body = .task c →
      (s.fibers f).fresh = true ∧ (s.fibers f).body = .task c)
    (hloads : ∀ g c, (s.workers w).Loads g c → g = f ∧ (fb.fresh = true → (s'.workers w).Loads f c)) :
    Staged s' := by
  refine h.of_move hm ho hw fun g c hg hc => ?_
  rw [hfibers] at hg hc ⊢
  rcases eq_or_ne g f with rfl | hne
  · rw [setFiber_self] at hg hc
    obtain ⟨hfresh, hbody⟩ := hwrite c hg hc
    exact Or.inl ((hloads g c (h.loads hown hfresh hbody)).2 hg)
  · exact Or.inr ⟨setFiber_ne hne, fun hl => hne (hloads g c hl).1⟩

theorem Staged.moves (h : Staged s) (hm : Moves s w m s') (hok : HandedOver s (.worker w m)) : Staged s' := by
  have ho := h.owned.moves hm hok
  have hw := h.workers w
  have hkept := h.owned.kept w
  have hmove := hm
  cases hm with
  | fetch hpc | fetchNone hpc | dispatchOver hpc | leave hpc | lookReady hpc | lookOver hpc | lookHold hpc
  | idle hpc =>
    refine h.of_move hmove ho ?_ fun f c hf hc => Or.inr ⟨rfl, ?_⟩
    · rw [goto_self]
      exact hw.of_pc (by simp) (by simp) (by simp [hpc, Pc.cbFiber, Slot.cbFiber])
    · simp [Worker.Loads, hpc]
  | @dispatchFiber f hpc =>
    refine h.of_move hmove ho ?_ fun f c hf hc => Or.inr ⟨rfl, ?_⟩
    · rw [goto_self]
      refine ⟨?_, ?_, fun _ => hw.resting (by rw [hpc]; rfl), ?_⟩ <;> simp
    · simp [Worker.Loads, hpc]
  | @lookRecycle f hpc hover =>
    refine h.of_move hmove ho ?_ fun f c hf hc => Or.inr ⟨rfl, ?_⟩
    · rw [goto_self]
      refine ⟨?_, ?_, ?_, ?_⟩ <;> simp [Pc.cbFiber, goto, setWorker, hover]
    · simp [Worker.Loads, hpc]
  | @dispatchReset c f hpc hcb =>
    refine h.of_move hmove ho ?_ fun g c' hg hc => ?_
    · rw [goto_self]
      refine ⟨?_, ?_, ?_, ?_⟩ <;> simp [Pc.cbFiber, Slot.cbFiber, goto, setWorker, Fiber.new]
    · rcases eq_or_ne g f with rfl | hne
      · left
        simp [goto, setWorker, Fiber.new] at hc
        simp [Worker.Loads, hc]
      · exact Or.inr ⟨setFiber_ne hne, by simp [Worker.Loads, hpc]⟩
  | @dispatchNew c hpc hcb =>
    refine h.of_move hmove ho ?_ fun g c' hg hc => ?_
    · rw [setWorker_self]
      refine ⟨?_, ?_, ?_, ?_⟩ <;> simp [Pc.cbFiber, Slot.cbFiber, setFiber, setWorker, Fiber.new]
    · rcases eq_or_ne g s.nextFiber with rfl | hne
      · left
        simp [setFiber, setWorker, Fiber.new] at hc
        simp [Worker.Loads, hc]
      · exact Or.inr ⟨setFiber_ne hne, by simp [Worker.Loads, hpc]⟩
  | @enter slot starts hpc =>
    have hft : (s.workers w).pc.ftFiber = slot.ftFiber := by rw [hpc]; rfl
    have hcb : (s.workers w).pc.cbFiber = slot.cbFiber := by rw [hpc]; rfl
    refine h.of_write hmove ho ?_ (h.owned.owns hft hcb) rfl (fun _ => And.intro) fun g c hl => ?_
    · rw [goto_self]
      refine ⟨?_, ?_, h.resting_write hft hcb _, by simp⟩
      · rintro slot' c (hpc' | hpc') <;> cases hpc'
        obtain ⟨f, rfl, hbody, hfresh⟩ := hw.loaded slot c (Or.inl hpc)
        exact ⟨f, rfl, by simpa [goto, setWorker, Slot.fiber] using ⟨hbody, hfresh⟩⟩
      · rintro slot' (hpc' | hpc') <;> cases hpc'
        exact hw.plain slot (Or.inl hpc)
    · simp only [Worker.Loads, hpc, Pc.enter.injEq, reduceCtorEq, or_false] at hl
      obtain ⟨rfl, rfl⟩ := hl
      exact ⟨rfl, fun _ => by simp [Worker.Loads, Slot.fiber]⟩
  | @switch slot starts hpc =>
    have hft : (s.workers w).pc.ftFiber = slot.ftFiber := by rw [hpc]; rfl
    have hcb : (s.workers w).pc.cbFiber = slot.cbFiber := by rw [hpc]; rfl
    refine h.of_write hmove ho ?_ (h.owned.owns hft hcb) rfl (by simp) fun g c hl => ?_
    · exact goto_self ▸ ⟨by simp, by simp, h.resting_write hft hcb _, by simp⟩
    · simp only [Worker.Loads, hpc, Pc.switch.injEq, reduceCtorEq, false_or] at hl
      obtain ⟨rfl, rfl⟩ := hl
      exact ⟨rfl, by simp⟩
  | @register slot hpc => exact h.of_move hmove ho hw fun f c hf hc => Or.inr ⟨rfl, by simp [Worker.Loads, hpc]⟩
  | @exit slot e hpc =>
    have hft : (s.workers w).pc.ftFiber = slot.ftFiber := by rw [hpc]; rfl
    have hcb : (s.workers w).pc.cbFiber = slot.cbFiber := by rw [hpc]; rfl
    refine h.of_write hmove ho ?_ (h.owned.owns hft hcb) rfl ?_ (by simp [Worker.Loads, hpc])
    · exact goto_self ▸ ⟨by simp, by simp, h.resting_write hft hcb _, by simp⟩
    · cases e <;> simp +contextual [Exit.write]
  | @requeue slot hpc =>
    refine h.of_move hmove ho ?_ fun f c hf hc => Or.inr ⟨rfl, by simp [Worker.Loads, hpc]⟩
    refine ⟨by simp [push], by simp [push], fun _ => ?_, by simp [push]⟩
    cases slot with
    | ft f => exact fun g hg => hw.resting (by rw [hpc]; rfl) g (by simpa [push] using hg)
    | cb f => simp [push]
  | @hold slot hpc =>
    have hft : (s.workers w).pc.ftFiber = slot.ftFiber := by rw [hpc]; rfl
    have hcb : (s.workers w).pc.cbFiber = slot.cbFiber := by rw [hpc]; rfl
    refine h.of_write hmove ho ?_ (h.owned.owns hft hcb) rfl (fun _ => And.intro) (by simp [Worker.Loads, hpc])
    refine ⟨by simp, by simp, fun _ => ?_, by simp⟩
    cases slot with
    | ft f => exact fun g hg => h.resting_write hft hcb _ rfl g (by simpa using hg)
    | cb f => simp
  | @recycle f hpc =>
    have hcb : (s.workers w).cbFiber = some f := hkept f (by rw [hpc]; rfl)
    refine h.of_write hmove ho ?_ (Or.inr hcb) rfl (by simp [Fiber.new]) (by simp [Worker.Loads, hpc])
    · refine goto_self ▸ ⟨by simp, by simp, fun _ g hg => ?_, by simp⟩
      obtain rfl : f = g := by simpa [hcb] using hg
      simp [goto, setWorker, Fiber.new]

theorem Staged.of_outside (h : Staged s) (ho : Owned s') (hw : s'.workers = s.workers)
    (hf : s'.fibers = s.fibers) : Staged s' := by
  refine ⟨ho, ?_, ?_⟩
  · rw [hw, hf]
    exact h.workers
  · rw [hw, hf]
    exact h.fresh

theorem Staged.step {a : Act n} (h : Staged s) (hok : HandedOver s a) (hs : s.step a = some s') : Staged s' := by
  have ho := h.owned.step hok hs
  cases a with
  | worker w m => exact h.moves (act_inv hs rfl) hok
  | newFiber =>
    cases hs
    have hne : ∀ w f, (s.workers w).Owns f → f ≠ s.nextFiber := fun w f hf he =>
      Nat.lt_irrefl _ (he ▸ h.owned.known w f hf)
    refine ⟨ho, fun w => (h.workers w).congr (h.owned.kept w) fun f hf => setFiber_ne (hne w f hf), ?_⟩
    intro f c hfresh hbody
    rcases eq_or_ne f s.nextFiber with rfl | hf
    · simp [setFiber, Fiber.new] at hbody
    · have hsame : (s.setFiber s.nextFiber (.new .own)).fibers f = s.fibers f := setFiber_ne hf
      exact h.fresh f c (hsame ▸ hfresh) (hsame ▸ hbody)
  | schedule items =>
    simp only [State.step] at hs
    split_ifs at hs
    cases hs
    exact h.of_outside ho pushAll_workers pushAll_fibers
  | wake f =>
    simp only [State.step] at hs
    split_ifs at hs
    cases hs
    exact h.of_outside ho push_workers push_fibers

/-! ### Where a callback is -/

end State

/-- Whether the worker has taken the callback and not started it. -/
def Pc.hands (c : CallbackId) : Pc → Nat
  | .picked (.callback d) | .enter _ (some d) | .switch _ (some d) => if d = c then 1 else 0
  | _ => 0

namespace State

variable {s s' : State n} {w v : Fin n} {m : Move} {f : FiberId} {c : CallbackId}

def inQueue (s : State n) (c : CallbackId) : Nat := s.queue.countP (·.work = .callback c)

def inHands (s : State n) (c : CallbackId) : Nat := total (fun k => k.pc.hands c) s.workers

/-- The places where a callback is, over the queue, the workers and the calls. -/
def places (s : State n) (c : CallbackId) : Nat := s.inQueue c + s.inHands c + s.started.count c

/-- Every callback that was scheduled is in one place, and no other callback is anywhere. -/
def Counted (s : State n) : Prop := ∀ c, s.places c = if c < s.nextCallback then 1 else 0

theorem counted_init (n : Nat) : Counted (init n) := by
  intro c
  simp [places, inQueue, inHands, init, Pc.hands, total_zero]

theorem inHands_move (others : ∀ v ≠ w, s'.workers v = s.workers v) :
    s'.inHands c + (s.workers w).pc.hands c = s.inHands c + (s'.workers w).pc.hands c := by
  have hupdate : s'.workers = Function.update s.workers w (s'.workers w) := by
    funext v
    rcases eq_or_ne v w with rfl | hne
    · rw [Function.update_self]
    · rw [Function.update_of_ne hne, others v hne]
  unfold inHands
  rw [hupdate, Function.update_self]
  exact total_update ..

/-- A step of `w` in which a callback only changes places. -/
theorem Counted.of_move (h : Counted s) (others : ∀ v ≠ w, s'.workers v = s.workers v)
    (next : s'.nextCallback = s.nextCallback)
    (hc : ∀ c, s'.inQueue c + (s'.workers w).pc.hands c + s'.started.count c =
      s.inQueue c + (s.workers w).pc.hands c + s.started.count c) : Counted s' := by
  intro c
  rw [next, ← h c]
  have hhands := inHands_move (c := c) others
  have := hc c
  unfold places
  omega

/-- The switch starts the callback the worker has in its hands, and nothing else. -/
theorem Staged.starts (h : Staged s) {slot : Slot} {starts : Option CallbackId}
    (hpc : (s.workers w).pc = .switch slot starts) : (s.fibers slot.fiber).starts = starts.toList := by
  cases starts with
  | some c =>
    obtain ⟨f, rfl, hbody, hfresh⟩ := (h.workers w).loaded slot c (Or.inr hpc)
    simp only [Fiber.starts, Slot.fiber, hfresh, hbody]
    rfl
  | none =>
    obtain ⟨f, rfl⟩ := (h.workers w).plain slot (Or.inr hpc)
    unfold Fiber.starts
    split
    case h_1 c hfresh hbody =>
      have hl := h.loads (w := w) (Or.inl (by rw [hpc]; rfl)) hfresh hbody
      simp [Worker.Loads, hpc] at hl
    case h_2 => rfl

theorem Counted.moves (h : Counted s) (hst : Staged s) (hm : Moves s w m s') : Counted s' := by
  have hframe : ∀ v ≠ w, s'.workers v = s.workers v := fun v hv => hm.workers_of_ne hv
  cases hm with
  | @fetch e hpc he =>
    refine h.of_move hframe rfl fun c => ?_
    have htaken : (Pc.picked e.work).hands c = if e.work = .callback c then 1 else 0 := by
      cases hw : e.work <;> simp [Pc.hands]
    have hqueue := countP_eraseP (q := fun e => decide (e.work = .callback c)) he
    rw [goto_self, htaken, hpc]
    simp only [decide_eq_true_eq] at hqueue
    simp only [inQueue, goto, setWorker, Pc.hands]
    omega
  | fetchNone hpc | dispatchOver hpc | dispatchFiber hpc | dispatchReset hpc | leave hpc | lookReady hpc
  | lookOver hpc | lookRecycle hpc | lookHold hpc | idle hpc | exit hpc | recycle hpc =>
    refine h.of_move hframe rfl fun c => ?_
    rw [goto_self, hpc]
    rfl
  | @enter slot starts hpc =>
    refine h.of_move hframe rfl fun c => ?_
    rw [goto_self, hpc]
    cases starts <;> rfl
  | dispatchNew hpc =>
    refine h.of_move hframe rfl fun c => ?_
    rw [setWorker_self, hpc]
    rfl
  | hold hpc =>
    refine h.of_move hframe rfl fun c => ?_
    rw [release_self, hpc]
    rfl
  | register hpc => exact h
  | @switch slot starts hpc =>
    refine h.of_move hframe rfl fun c => ?_
    have hstarts : starts.toList.count c = (Pc.switch slot starts).hands c := by
      cases starts <;> simp [Pc.hands, List.count_singleton]
    have hcalls : (s.switch w slot).started = s.started ++ starts.toList := congrArg _ (hst.starts hpc)
    rw [hcalls, List.count_append, hstarts, hpc]
    simp only [State.switch, inQueue, goto, setWorker, setFiber, Function.update_self, Pc.hands]
    omega
  | @requeue slot hpc =>
    refine h.of_move hframe rfl fun c => ?_
    rw [hpc]
    simp [push, inQueue, release, setWorker, Pc.hands]

theorem Counted.push (h : Counted s) (i : Item) : Counted (s.push i) := by
  intro c
  have hc := h c
  have hhands : (s.push i).inHands c = s.inHands c := by rw [inHands, push_workers, inHands]
  unfold places at hc ⊢
  rw [hhands]
  cases i with
  | fiber f thread =>
    have hqueue : (s.push (.fiber f thread)).inQueue c = s.inQueue c := by simp [State.push, inQueue]
    rw [hqueue]
    exact hc
  | callback thread =>
    have hqueue : (s.push (.callback thread)).inQueue c = s.inQueue c + if s.nextCallback = c then 1 else 0 := by
      simp [State.push, inQueue, List.countP_append, List.countP_singleton]
    rw [hqueue]
    change _ + s.started.count c = if c < s.nextCallback + 1 then 1 else 0
    rcases Nat.lt_trichotomy c s.nextCallback with hlt | rfl | hgt
    · rw [if_pos hlt] at hc
      rw [if_neg (Nat.ne_of_gt hlt), if_pos (Nat.lt_succ_of_lt hlt)]
      exact hc
    · rw [if_neg (Nat.lt_irrefl _)] at hc
      rw [if_pos rfl, if_pos (Nat.lt_succ_self _)]
      omega
    · rw [if_neg (Nat.lt_asymm hgt)] at hc
      rw [if_neg (Nat.ne_of_lt hgt), if_neg (Nat.not_lt.mpr hgt)]
      exact hc

theorem Counted.pushAll {items : List Item} (h : Counted s) : Counted (items.foldl State.push s) := by
  induction items generalizing s with
  | nil => exact h
  | cons i items ih => exact ih (h.push i)

theorem Counted.step {a : Act n} (h : Counted s) (hst : Staged s) (hs : s.step a = some s') : Counted s' := by
  cases a with
  | worker w m => exact h.moves hst (act_inv hs rfl)
  | newFiber =>
    cases hs
    exact h
  | schedule items =>
    simp only [State.step] at hs
    split_ifs at hs
    cases hs
    exact h.pushAll
  | wake f =>
    simp only [State.step] at hs
    split_ifs at hs
    cases hs
    have hwaiting : Counted { s with waiting := s.waiting.erase f } := h
    exact hwaiting.push (.fiber f none)

end State
end Scheduler
end MyHttp

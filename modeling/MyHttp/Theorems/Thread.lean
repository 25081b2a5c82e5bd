import MyHttp.Thread
import MyHttp.Lib.Run

/-! The constructor of `Thread` returns only when the new thread has set `m_id`, has taken the callback and will not use the
    object again, so that the object can be destroyed while its thread runs. Its thread is joined or detached, and not
    twice. -/

namespace MyHttp

open Lib.Run Lib.CString

/-- `m_id` has been written. -/
def RunPc.identified : RunPc → Bool
  | .adopt | .identify => false
  | _ => true

/-- The callback has been taken. -/
def RunPc.taken : RunPc → Bool
  | .notify | .callback | .done => true
  | _ => false

/-- The last use of the object is over. -/
def RunPc.notified : RunPc → Bool
  | .callback | .done => true
  | _ => false

namespace Threads

variable {n : Nat} {s t : Threads n} {a : Act n} {i j : Fin n} {o : ThreadObject} {k : KernelThread} {r : Nat} {w l : Bool}

/-- What is true of an object, of its thread and of how often that was given back, while the creator waits in its
    constructor or joins it, or neither. -/
inductive Fits : ThreadObject → Option KernelThread → Nat → Bool → Bool → Prop
  /-- there is no thread -/
  | unmade {o : ThreadObject} (h : o.stage = .absent ∨ o.stage = .destroyed) : Fits o none 0 false false
  | starting {name : Bytes} {id : Option Nat} {cb : Bool} {k : KernelThread} (hpc : k.pc.notified = false)
    (hid : id = if k.pc.identified then some k.tid else none) (hcb : cb = !k.pc.taken) (htaken : k.hasCb = k.pc.taken) :
    Fits ⟨.constructing, id, cb, name, 0, true⟩ (some k) 0 true false
  /-- the creator can leave the constructor -/
  | ready {name : Bytes} {k : KernelThread} (hpc : k.pc.notified = true) (hcb : k.hasCb = true) :
    Fits ⟨.constructing, some k.tid, false, name, 1, true⟩ (some k) 0 true false
  | living {name : Bytes} {k : KernelThread} {joins : Bool} (hpc : k.pc.notified = true) (hcb : k.hasCb = true) :
    Fits ⟨.alive, some k.tid, false, name, 0, true⟩ (some k) 0 false joins
  | joined {name : Bytes} {k : KernelThread} (hpc : k.pc = .done) (hcb : k.hasCb = true) :
    Fits ⟨.alive, some k.tid, false, name, 0, false⟩ (some k) 1 false false
  | gone {name : Bytes} {k : KernelThread} {thread : Bool} (hpc : k.pc.notified = true) (hcb : k.hasCb = true) :
    Fits ⟨.destroyed, some k.tid, false, name, 0, thread⟩ (some k) 1 false false

def waits (s : Threads n) (i : Fin n) : Bool := s.creator = .waiting i

def joins (s : Threads n) (i : Fin n) : Bool := s.creator = .joining i

structure Sound (s : Threads n) : Prop where
  safe : s.fault = false
  fits : ∀ i, Fits (s.objects i) (s.kernel i) (s.reaped i) (s.waits i) (s.joins i)

/-- `SetName` is not called in a thread whose object is gone. -/
def Named (s : Threads n) : Act n → Prop
  | .setName i _ => (s.objects i).stage ≠ .destroyed
  | _ => True

instance (s : Threads n) (a : Act n) : Decidable (Named s a) := by
  cases a <;> unfold Named <;> infer_instance

/-- Nothing happens to the other objects. -/
structure Only (s t : Threads n) (i : Fin n) : Prop where
  objects : ∀ j, j ≠ i → t.objects j = s.objects j
  kernel : ∀ j, j ≠ i → t.kernel j = s.kernel j
  reaped : ∀ j, j ≠ i → t.reaped j = s.reaped j
  waits : ∀ j, j ≠ i → t.waits j = s.waits j
  joins : ∀ j, j ≠ i → t.joins j = s.joins j

/-- A step at one object keeps what is true of all when it keeps what is true of this one. -/
theorem Sound.only {k : Option KernelThread} (h : s.Sound) (honly : Only s t i) (hsafe : t.fault = false) (ho : t.objects i = o)
    (hk : t.kernel i = k) (hr : t.reaped i = r) (hw : t.waits i = w) (hl : t.joins i = l) (hfits : Fits o k r w l) : t.Sound := by
  refine ⟨hsafe, fun j => ?_⟩
  by_cases hj : j = i
  · rw [hj, ho, hk, hr, hw, hl]
    exact hfits
  · rw [honly.objects j hj, honly.kernel j hj, honly.reaped j hj, honly.waits j hj, honly.joins j hj]
    exact h.fits j

theorem waits_free (h : s.creator = .free) (i : Fin n) : s.waits i = false ∧ s.joins i = false := by
  simp [waits, joins, h]

theorem waits_waiting (h : s.creator = .waiting i) (j : Fin n) : s.waits j = decide (i = j) ∧ s.joins j = false := by
  simp [waits, joins, h]

theorem waits_joining (h : s.creator = .joining i) (j : Fin n) : s.waits j = false ∧ s.joins j = decide (i = j) := by
  simp [waits, joins, h]

/-! ### The creator -/

theorem Sound.construct (h : s.Sound) (hfree : s.creator = .free) (habsent : (s.objects i).stage = .absent) (name : Bytes)
    (tid : Option Nat) : (s.construct i name tid).Sound := by
  have hfits := h.fits i
  have hunmade : s.kernel i = none ∧ s.reaped i = 0 ∧ s.waits i = false ∧ s.joins i = false := by
    generalize s.objects i = o at habsent hfits
    generalize s.kernel i = k at hfits ⊢
    generalize s.reaped i = r at hfits ⊢
    generalize s.waits i = w at hfits ⊢
    generalize s.joins i = l at hfits ⊢
    cases hfits <;> first | exact ⟨rfl, rfl, rfl, rfl⟩ | cases habsent
  obtain ⟨hkernel, hreaped, hwaits, hjoins⟩ := hunmade
  cases tid with
  | none =>
    have honly : Only s (s.construct i name none) i :=
      ⟨fun j hj => Function.update_of_ne hj _ _, fun _ _ => rfl, fun _ _ => rfl, fun _ _ => rfl, fun _ _ => rfl⟩
    exact h.only honly h.safe (Function.update_self ..) hkernel hreaped hwaits hjoins (.unmade (.inr rfl))
  | some tid =>
    have hcreator : (s.construct i name (some tid)).creator = .waiting i := rfl
    have honly : Only s (s.construct i name (some tid)) i := by
      refine ⟨fun j hj => Function.update_of_ne hj _ _, fun j hj => Function.update_of_ne hj _ _, fun _ _ => rfl,
        fun j hj => ?_, fun j _ => ?_⟩
      · rw [(waits_waiting hcreator j).1, (waits_free hfree j).1, decide_eq_false (Ne.symm hj)]
      · rw [(waits_waiting hcreator j).2, (waits_free hfree j).2]
    exact h.only honly h.safe (Function.update_self ..) (Function.update_self ..) hreaped
      ((waits_waiting hcreator i).1.trans (decide_eq_true rfl)) (waits_waiting hcreator i).2 (.starting rfl rfl rfl rfl)

theorem Sound.wait (h : s.Sound) (hwaiting : s.creator = .waiting i) (hcount : 0 < (s.objects i).semaphore)
    (ht : t = { s.setObject i { s.objects i with stage := .alive, semaphore := (s.objects i).semaphore - 1 } with creator := .free }) :
    t.Sound := by
  have hfits := h.fits i
  have hfree : t.creator = .free := ht ▸ rfl
  have honly : Only s t i := by
    refine ⟨fun j hj => ?_, fun _ _ => ht ▸ rfl, fun _ _ => ht ▸ rfl, fun j hj => ?_, fun j _ => ?_⟩
    · rw [ht]
      exact Function.update_of_ne hj _ _
    · rw [(waits_free hfree j).1, (waits_waiting hwaiting j).1, decide_eq_false (Ne.symm hj)]
    · rw [(waits_free hfree j).2, (waits_waiting hwaiting j).2]
  have hobject : t.objects i = { s.objects i with stage := .alive, semaphore := (s.objects i).semaphore - 1 } := by
    rw [ht]
    exact Function.update_self ..
  have hsame : t.kernel i = s.kernel i ∧ t.reaped i = s.reaped i := ht ▸ ⟨rfl, rfl⟩
  refine h.only honly (ht ▸ h.safe) hobject hsame.1 hsame.2 (waits_free hfree i).1 (waits_free hfree i).2 ?_
  rw [(waits_waiting hwaiting i).1, (waits_waiting hwaiting i).2, decide_eq_true rfl] at hfits
  generalize s.objects i = o at hfits hcount ⊢
  generalize s.kernel i = k at hfits ⊢
  generalize s.reaped i = r at hfits ⊢
  cases hfits with
  | starting hpc hid hcb htaken => exact absurd hcount (Nat.lt_irrefl 0)
  | ready hpc hcb => exact .living hpc hcb

theorem Sound.join (h : s.Sound) (hfree : s.creator = .free) (halive : (s.objects i).stage = .alive)
    (hthread : (s.objects i).thread = true) (ht : t = { s with creator := .joining i }) : t.Sound := by
  have hfits := h.fits i
  have hjoining : t.creator = .joining i := ht ▸ rfl
  have honly : Only s t i := by
    refine ⟨fun _ _ => ht ▸ rfl, fun _ _ => ht ▸ rfl, fun _ _ => ht ▸ rfl, fun j _ => ?_, fun j hj => ?_⟩
    · rw [(waits_joining hjoining j).1, (waits_free hfree j).1]
    · rw [(waits_joining hjoining j).2, (waits_free hfree j).2, decide_eq_false (Ne.symm hj)]
  have hsame : t.objects i = s.objects i ∧ t.kernel i = s.kernel i ∧ t.reaped i = s.reaped i := ht ▸ ⟨rfl, rfl, rfl⟩
  refine h.only honly (ht ▸ h.safe) hsame.1 hsame.2.1 hsame.2.2 (waits_joining hjoining i).1
    ((waits_joining hjoining i).2.trans (decide_eq_true rfl)) ?_
  rw [(waits_free hfree i).1, (waits_free hfree i).2] at hfits
  generalize s.objects i = o at hfits halive hthread ⊢
  generalize s.kernel i = k at hfits ⊢
  generalize s.reaped i = r at hfits ⊢
  cases hfits with
  | unmade hstage => rcases hstage with hstage | hstage <;> cases halive.symm.trans hstage
  | living hpc hcb => exact .living hpc hcb
  | joined hpc hcb => cases hthread
  | gone hpc hcb => cases halive

theorem Sound.joined (h : s.Sound) (hjoining : s.creator = .joining i) (hdone : (s.kernel i).any (fun k => k.pc = .done) = true)
    (ht : t = { (s.setObject i { s.objects i with thread := false }).reap i with creator := .free }) : t.Sound := by
  have hfits := h.fits i
  have hfree : t.creator = .free := ht ▸ rfl
  have honly : Only s t i := by
    refine ⟨fun j hj => ?_, fun _ _ => ht ▸ rfl, fun j hj => ?_, fun j _ => ?_, fun j hj => ?_⟩
    · rw [ht]
      exact Function.update_of_ne hj _ _
    · rw [ht]
      exact Function.update_of_ne hj _ _
    · rw [(waits_free hfree j).1, (waits_joining hjoining j).1]
    · rw [(waits_free hfree j).2, (waits_joining hjoining j).2, decide_eq_false (Ne.symm hj)]
  have hobject : t.objects i = { s.objects i with thread := false } := by
    rw [ht]
    exact Function.update_self ..
  have hreaped : t.reaped i = s.reaped i + 1 := by
    rw [ht]
    exact Function.update_self ..
  have hkernel : t.kernel i = s.kernel i := ht ▸ rfl
  refine h.only honly (ht ▸ h.safe) hobject hkernel hreaped (waits_free hfree i).1 (waits_free hfree i).2 ?_
  rw [(waits_joining hjoining i).1, (waits_joining hjoining i).2, decide_eq_true rfl] at hfits
  generalize s.objects i = o at hfits ⊢
  generalize s.kernel i = k at hfits hdone ⊢
  generalize s.reaped i = r at hfits ⊢
  cases hfits with
  | living hpc hcb => exact .joined (of_decide_eq_true hdone) hcb

theorem Sound.destroy (h : s.Sound) (hfree : s.creator = .free) (halive : (s.objects i).stage = .alive)
    (ht : t = if (s.objects i).thread then (s.setObject i { s.objects i with stage := .destroyed }).reap i
      else s.setObject i { s.objects i with stage := .destroyed }) : t.Sound := by
  have hfits := h.fits i
  have hsame : t.fault = s.fault ∧ t.kernel = s.kernel ∧ t.creator = s.creator ∧
      t.objects = Function.update s.objects i { s.objects i with stage := .destroyed } ∧
      t.reaped = if (s.objects i).thread then Function.update s.reaped i (s.reaped i + 1) else s.reaped := by
    rw [ht]
    split <;> exact ⟨rfl, rfl, rfl, rfl, rfl⟩
  obtain ⟨hfault, hkernel, hcreator, hobjects, hreaped⟩ := hsame
  have hfree' : t.creator = .free := hcreator.trans hfree
  have honly : Only s t i := by
    refine ⟨fun j hj => ?_, fun j _ => congrFun hkernel j, fun j hj => ?_, fun j _ => ?_, fun j _ => ?_⟩
    · rw [hobjects]
      exact Function.update_of_ne hj _ _
    · rw [hreaped]
      split
      · exact Function.update_of_ne hj _ _
      · rfl
    · rw [waits, waits, hcreator]
    · rw [joins, joins, hcreator]
  have hobject : t.objects i = { s.objects i with stage := .destroyed } := by
    rw [hobjects]
    exact Function.update_self ..
  have hcount : t.reaped i = if (s.objects i).thread then s.reaped i + 1 else s.reaped i := by
    rw [hreaped]
    split
    · exact Function.update_self ..
    · rfl
  refine h.only honly (hfault.trans h.safe) hobject (congrFun hkernel i) hcount (waits_free hfree' i).1 (waits_free hfree' i).2 ?_
  rw [(waits_free hfree i).1, (waits_free hfree i).2] at hfits
  generalize s.objects i = o at hfits halive ⊢
  generalize s.kernel i = k at hfits ⊢
  generalize s.reaped i = r at hfits ⊢
  cases hfits with
  | unmade hstage => rcases hstage with hstage | hstage <;> cases halive.symm.trans hstage
  | living hpc hcb => exact .gone hpc hcb
  | joined hpc hcb => exact .gone (hpc ▸ rfl) hcb
  | gone hpc hcb => cases halive

/-! ### The threads -/

section Fits

variable (h : Fits o (some k) r w l)
include h

/-- Up to the notification the object is in its constructor. -/
theorem Fits.usable (hpc : k.pc.notified = false) : o.usable = true := by
  cases h with
  | starting _ _ _ _ => rfl
  | ready hdone _ | living hdone _ | gone hdone _ => exact absurd (hdone.symm.trans hpc) nofun
  | joined hdone _ => exact absurd ((congrArg RunPc.notified hdone).symm.trans hpc) nofun

theorem Fits.adopt (hpc : k.pc = .adopt) (name : Bytes) : Fits o (some { k with pc := .identify, name }) r w l := by
  cases h with
  | starting _ hid hcb htaken =>
    rw [hpc] at hid hcb htaken
    exact .starting rfl hid hcb htaken
  | ready hdone _ | living hdone _ | gone hdone _ | joined hdone _ => rw [hpc] at hdone; cases hdone

theorem Fits.identify (hpc : k.pc = .identify) : Fits { o with id := some k.tid } (some { k with pc := .label }) r w l := by
  cases h with
  | starting _ hid hcb htaken =>
    rw [hpc] at hcb htaken
    exact .starting rfl rfl hcb htaken
  | ready hdone _ | living hdone _ | gone hdone _ | joined hdone _ => rw [hpc] at hdone; cases hdone

theorem Fits.label (hpc : k.pc = .label) : Fits o (some { k with pc := .take }) r w l := by
  cases h with
  | starting _ hid hcb htaken =>
    rw [hpc] at hid hcb htaken
    exact .starting rfl hid hcb htaken
  | ready hdone _ | living hdone _ | gone hdone _ | joined hdone _ => rw [hpc] at hdone; cases hdone

theorem Fits.take (hpc : k.pc = .take) : Fits { o with cb := false } (some { k with pc := .notify, hasCb := o.cb }) r w l := by
  cases h with
  | starting _ hid hcb htaken =>
    rw [hpc] at hid hcb
    exact .starting rfl hid rfl hcb
  | ready hdone _ | living hdone _ | gone hdone _ | joined hdone _ => rw [hpc] at hdone; cases hdone

theorem Fits.notify (hpc : k.pc = .notify) :
    Fits { o with semaphore := o.semaphore + 1 } (some { k with pc := .callback }) r w l := by
  cases h with
  | starting _ hid hcb htaken =>
    rw [hpc] at hid hcb htaken
    rw [hid, hcb]
    exact .ready (k := { k with pc := .callback }) rfl htaken
  | ready hdone _ | living hdone _ | gone hdone _ | joined hdone _ => rw [hpc] at hdone; cases hdone

theorem Fits.callback (hpc : k.pc = .callback) : Fits o (some { k with pc := .done }) r w l := by
  cases h with
  | starting hstart _ _ _ => rw [hpc] at hstart; cases hstart
  | ready _ hcb => exact .ready (k := { k with pc := .done }) rfl hcb
  | living _ hcb => exact .living (k := { k with pc := .done }) rfl hcb
  | joined hdone _ => rw [hpc] at hdone; cases hdone
  | gone _ hcb => exact .gone (k := { k with pc := .done }) rfl hcb

theorem Fits.setName (hpc : k.pc = .callback) (hstage : o.stage ≠ .destroyed) (name : Bytes) :
    o.usable = true ∧ Fits { o with name } (some { k with name }) r w l := by
  have hnotified : k.pc.notified = true := hpc ▸ rfl
  cases h with
  | starting hstart _ _ _ => exact absurd (hstart.symm.trans hnotified) nofun
  | ready _ hcb => exact ⟨rfl, .ready (k := { k with name }) hnotified hcb⟩
  | living _ hcb => exact ⟨rfl, .living (k := { k with name }) hnotified hcb⟩
  | joined hdone _ => rw [hpc] at hdone; cases hdone
  | gone _ _ => exact absurd rfl hstage

end Fits

theorem Only.run (s : Threads n) (i : Fin n) (f : ThreadObject → ThreadObject) (k : KernelThread) :
    Only s ((s.use i f).setKernel i k) i := by
  have hsame : (s.use i f).reaped = s.reaped ∧ (s.use i f).creator = s.creator ∧ (s.use i f).kernel = s.kernel := by
    unfold use
    split <;> exact ⟨rfl, rfl, rfl⟩
  refine ⟨fun j hj => ?_, fun j hj => ?_, fun j _ => congrFun hsame.1 j, fun j _ => ?_, fun j _ => ?_⟩
  · unfold setKernel use
    split
    · exact Function.update_of_ne hj _ _
    · rfl
  · exact (Function.update_of_ne hj _ _).trans (congrFun hsame.2.2 j)
  · exact congrArg (fun c => decide (c = CreatorPc.waiting j)) hsame.2.1
  · exact congrArg (fun c => decide (c = CreatorPc.joining j)) hsame.2.1

/-- A step of a thread that uses its object, while there is one. -/
theorem Sound.use (h : s.Sound) {f : ThreadObject → ThreadObject} {k : KernelThread} (hthere : (s.objects i).usable = true)
    (hfits : Fits (f (s.objects i)) (some k) (s.reaped i) (s.waits i) (s.joins i)) : ((s.use i f).setKernel i k).Sound := by
  have huse : s.use i f = s.setObject i (f (s.objects i)) := if_pos hthere
  have honly := Only.run s i f k
  rw [huse] at honly ⊢
  exact h.only honly h.safe (Function.update_self ..) (Function.update_self ..) rfl rfl rfl hfits

theorem Sound.run (h : s.Sound) (hk : s.kernel i = some k) (hs : s.run i k = some t) : t.Sound := by
  have hfits : Fits (s.objects i) (some k) (s.reaped i) (s.waits i) (s.joins i) := hk ▸ h.fits i
  unfold Threads.run at hs
  cases hpc : k.pc <;> simp only [hpc] at hs <;> cases hs
  case adopt => exact h.use (hfits.usable (hpc ▸ rfl)) (hfits.adopt hpc _)
  case identify => exact h.use (hfits.usable (hpc ▸ rfl)) (hfits.identify hpc)
  case label => exact h.use (hfits.usable (hpc ▸ rfl)) (hfits.label hpc)
  case take => exact h.use (hfits.usable (hpc ▸ rfl)) (hfits.take hpc)
  case notify => exact h.use (hfits.usable (hpc ▸ rfl)) (hfits.notify hpc)
  case callback =>
    exact h.only ⟨fun _ _ => rfl, fun j hj => Function.update_of_ne hj _ _, fun _ _ => rfl, fun _ _ => rfl, fun _ _ => rfl⟩
      h.safe rfl (Function.update_self ..) rfl rfl rfl (hfits.callback hpc)

/-! ### Runs -/

theorem Sound.step (h : s.Sound) (hok : Named s a) (hs : s.step a = some t) : t.Sound := by
  cases a with
  | construct i name tid =>
    obtain ⟨⟨hfree, habsent⟩, heq⟩ := Option.ite_none_right_eq_some.mp hs
    cases heq
    exact h.construct hfree habsent name tid
  | wait =>
    unfold Threads.step at hs
    cases hcreator : s.creator with
    | waiting i =>
      simp only [hcreator] at hs
      obtain ⟨hcount, heq⟩ := Option.ite_none_right_eq_some.mp hs
      exact h.wait hcreator hcount (Option.some.inj heq).symm
    | free | joining i => simp only [hcreator] at hs; cases hs
  | join i =>
    obtain ⟨⟨hfree, halive⟩, heq⟩ := Option.ite_none_right_eq_some.mp hs
    obtain rfl := Option.some.inj heq
    split
    · rename_i hthread
      exact h.join hfree halive hthread rfl
    · exact h
  | joined =>
    unfold Threads.step at hs
    cases hcreator : s.creator with
    | joining i =>
      simp only [hcreator] at hs
      obtain ⟨hdone, heq⟩ := Option.ite_none_right_eq_some.mp hs
      exact h.joined hcreator hdone (Option.some.inj heq).symm
    | free | waiting i => simp only [hcreator] at hs; cases hs
  | destroy i =>
    obtain ⟨⟨hfree, halive⟩, heq⟩ := Option.ite_none_right_eq_some.mp hs
    exact h.destroy hfree halive (Option.some.inj heq).symm
  | run i =>
    obtain ⟨k, hk, hrun⟩ := Option.bind_eq_some_iff.mp hs
    exact h.run hk hrun
  | setName i name =>
    unfold Threads.step at hs
    cases hk : s.kernel i with
    | none => simp only [hk] at hs; cases hs
    | some k =>
      simp only [hk] at hs
      obtain ⟨hpc, heq⟩ := Option.ite_none_right_eq_some.mp hs
      cases heq
      have hfits : Fits (s.objects i) (some k) (s.reaped i) (s.waits i) (s.joins i) := hk ▸ h.fits i
      obtain ⟨hthere, hnext⟩ := hfits.setName hpc hok name
      exact h.use hthere hnext

theorem sound_init (n : Nat) : (init n).Sound := ⟨rfl, fun _ => .unmade (.inl rfl)⟩

/-- What the users of the class rely on. -/
structure Relied (s : Threads n) : Prop where
  safe : s.fault = false
  /-- `getId` of a thread that was made is the number of its thread, which has the callback -/
  made : ∀ i, (s.objects i).stage = .alive → (s.objects i).cb = false ∧
    ∃ k, s.kernel i = some k ∧ (s.objects i).id = some k.tid ∧ k.hasCb = true
  /-- a constructor ends: it can go on, or else its thread can -/
  ends : ∀ i, s.creator = .waiting i → ∃ a t, (a = .wait ∨ a = .run i) ∧ s.step a = some t
  /-- a thread is given back at most once, and with its object at the latest -/
  reaped : ∀ i, s.reaped i ≤ 1 ∧ ((s.objects i).stage = .destroyed → (s.kernel i).isSome → s.reaped i = 1)
  /-- what was joined is over -/
  joined : ∀ i, (s.objects i).stage = .alive → (s.objects i).thread = false → (s.kernel i).any (·.pc = .done) = true

theorem Fits.reaped {k : Option KernelThread} (h : Fits o k r w l) : r ≤ 1 ∧ (o.stage = .destroyed → k.isSome → r = 1) := by
  cases h with
  | unmade => exact ⟨Nat.zero_le 1, fun _ => Bool.noConfusion⟩
  | starting | ready | living => exact ⟨Nat.zero_le 1, nofun⟩
  | joined | gone => exact ⟨Nat.le_refl 1, fun _ _ => rfl⟩

theorem Fits.made {k : Option KernelThread} (h : Fits o k r w l) (halive : o.stage = .alive) :
    (o.cb = false ∧ ∃ k', k = some k' ∧ o.id = some k'.tid ∧ k'.hasCb = true) ∧
      (o.thread = false → k.any (·.pc = .done) = true) := by
  cases h with
  | unmade hstage => rcases hstage with hstage | hstage <;> cases halive.symm.trans hstage
  | starting | ready | gone => cases halive
  | living _ hcb => exact ⟨⟨rfl, _, rfl, rfl, hcb⟩, nofun⟩
  | joined hdone hcb => exact ⟨⟨rfl, _, rfl, rfl, hcb⟩, fun _ => decide_eq_true hdone⟩

/-- The thread of a constructor that waits has steps of its own until it has notified. -/
theorem Fits.ends {k : Option KernelThread} (h : Fits o k r true l) :
    0 < o.semaphore ∨ ∃ k', k = some k' ∧ k'.pc.notified = false := by
  cases h with
  | starting hpc _ _ _ => exact .inr ⟨_, rfl, hpc⟩
  | ready => exact .inl Nat.one_pos

theorem run_isSome (s : Threads n) (i : Fin n) (hpc : k.pc.notified = false) : ∃ t, s.run i k = some t := by
  unfold Threads.run
  cases hk : k.pc <;> simp only [hk] at hpc ⊢ <;> first | exact ⟨_, rfl⟩ | cases hpc

end Threads
end MyHttp

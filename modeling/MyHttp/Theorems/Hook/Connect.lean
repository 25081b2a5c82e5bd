import MyHttp.Hook.Connect
import MyHttp.Theorems.FdManager.Reuse
import MyHttp.Theorems.Hook.Slots

/-! What `connect` answers: a fiber is told that it is connected when its socket is, unless something has disturbed the call. -/

namespace MyHttp

open Lib.Machine Lib.Run

namespace FdManager

variable {s t : FdManager} {fd fd' : Nat} {act : FdAct}

theorem update_isSome {files : Nat → Option File} {file : File} (h : (files fd').isSome) :
    (Function.update files fd (some file) fd').isSome := by
  by_cases hfd : fd' = fd
  · rw [hfd, Function.update_self]
    rfl
  · rw [Function.update_of_ne hfd]
    exact h

theorem init_isSome {files : Nat → Option File} (h : (files fd').isSome) : ((FdCtx.init fd files).2 fd').isSome := by
  unfold FdCtx.init
  split
  · exact h
  · dsimp only
    split
    · split
      · exact h
      · exact update_isSome h
    · exact h

theorem getCreate_isSome (h : (s.files fd').isSome) : ((s.getCreate fd).files fd').isSome := by
  unfold getCreate
  split
  · exact h
  · exact init_isSome h

theorem Keeps.isSome (hk : Keeps s t) (h : (s.files fd').isSome) : (t.files fd').isSome :=
  Option.isSome_iff_ne_none.mpr fun hnone => Option.isSome_iff_ne_none.mp h ((hk.files fd').mp hnone)

/-- An open number stays open, unless it is closed. -/
theorem step_isSome (hs : s.step act = some t) (hclose : act ≠ .close fd') (h : (s.files fd').isSome) : (t.files fd').isSome := by
  cases act with
  | socket ret | accept ret =>
    rcases ret with _ | ⟨fd, flags⟩
    · obtain rfl := Option.some.inj hs
      exact h
    · obtain ⟨-, rfl⟩ := step_opened hs rfl
      exact getCreate_isSome (update_isSome h)
  | setsockopt fd type sec usec =>
    obtain rfl := Option.some.inj hs
    exact (keeps_modify ..).isSome h
  | setfl fd arg =>
    obtain rfl := Option.some.inj hs
    exact (keeps_setfl ..).isSome h
  | fionbio fd v =>
    obtain rfl := Option.some.inj hs
    exact (keeps_fionbio ..).isSome h
  | close fd =>
    obtain rfl := Option.some.inj hs
    rw [close_files, Function.update_of_ne fun heq => hclose (by rw [heq])]
    exact h

end FdManager

namespace Hook

variable {m n : Nat} {s t u : Hook m n} {f g : Fin m} {c d : IoCall} {fd k : Nat} {a : Act m n} {task : Task}

/-! ### What a step of `do_io` keeps -/

/-- Descriptors stay open, unless they are closed, and timeouts that have struck stay so. -/
structure Keeps (s : Hook m n) (a : Act m n) (t : Hook m n) : Prop where
  files : ∀ fd, (∀ g, a = .closeFd g → s.tasks g ≠ .closing fd) → (s.fds.files fd).isSome → (t.fds.files fd).isSome
  cancelled : ∀ k, s.cancelled k = true → t.cancelled k = true

theorem Keeps.same (hfds : t.fds = s.fds) (hcancelled : ∀ k, s.cancelled k = true → t.cancelled k = true) : Keeps s a t :=
  ⟨fun _ _ h => hfds ▸ h, hcancelled⟩

theorem keeps_finish {closed : Bool} {r : SysResult} : Keeps s a (s.finish f closed r) := by
  cases r with
  | accepted fd flags => exact ⟨fun _ _ h => FdManager.update_isSome h, fun _ => id⟩
  | done | eintr | eagain | failed => exact .same rfl fun _ => id

theorem keeps_step (hs : s.step a = some t) : Keeps s a t := by
  cases a with
  | doIo f fd event accept =>
    obtain ⟨-, heq⟩ := Option.ite_none_right_eq_some.mp hs
    obtain rfl := Option.some.inj heq
    rcases doIo_cases s f fd event accept with heq | heq | ⟨timeout, heq⟩
    · rw [heq]
      exact .same rfl fun _ => id
    · rw [heq]
      exact .same rfl fun _ => id
    · rw [heq]
      exact .same rfl fun _ => cancelled_of_append
  | issue f r =>
    rcases issue_cases hs with ⟨fd, accept, closed, -, rfl⟩ | ⟨c, -, -, rfl | rfl | rfl⟩
    · exact keeps_finish
    · exact .same rfl fun _ => id
    · exact .same rfl fun _ => id
    · have hfinish : Keeps (s.drop c.info) (.issue f r) ((s.drop c.info).finish f c.closed r) := keeps_finish
      exact ⟨hfinish.files, fun k hk => hfinish.cancelled k (cancelled_drop.trans hk)⟩
  | arm f addr now =>
    obtain ⟨c, -, -, ⟨-, -, rfl⟩ | ⟨-, rfl⟩⟩ := arm_cases hs
    · exact .same rfl fun _ => id
    · exact .same rfl fun _ => id
  | addEvent f refused =>
    obtain ⟨c, ok, events, -, -, -, ⟨-, rfl⟩ | ⟨timers, -, -, rfl⟩⟩ := addEvent_cases hs
    · exact .same rfl fun _ => id
    · exact .same rfl fun _ hk => cancelled_drop.trans hk
  | yield f =>
    obtain ⟨c, -, -, rfl⟩ := yield_cases hs
    exact .same rfl fun _ => id
  | resume f =>
    obtain ⟨c, -, -, rfl⟩ := resume_cases hs
    exact .same rfl fun _ => id
  | cancelTimer f =>
    obtain ⟨c, timers, -, -, -, rfl⟩ := cancelTimer_cases hs
    exact .same rfl fun _ => id
  | check f =>
    obtain ⟨c, -, -, ⟨-, rfl⟩ | ⟨-, rfl⟩⟩ := check_cases hs
    · exact .same rfl fun _ hk => cancelled_drop.trans hk
    · exact .same rfl fun _ => id
  | context f =>
    obtain ⟨fd, -, rfl⟩ := context_cases hs
    exact ⟨fun _ _ => FdManager.getCreate_isSome, fun _ => id⟩
  | close f fd refused =>
    obtain ⟨-, rfl | ⟨ok, events, -, rfl⟩⟩ := close_cases hs
    · exact .same rfl fun _ => id
    · exact .same rfl fun _ => id
  | closeFd f =>
    obtain ⟨fd', htask, rfl⟩ := closeFd_cases hs
    refine ⟨fun fd hclose h => ?_, fun _ => id⟩
    have hne : fd ≠ fd' := by
      rintro rfl
      exact hclose f rfl htask
    dsimp only
    rw [FdManager.close_files, Function.update_of_ne hne]
    exact h
  | onFd a =>
    unfold Hook.step Hook.onFd at hs
    cases a with
    | close fd | accept ret => cases hs
    | socket | setsockopt | setfl | fionbio =>
      obtain ⟨fds, hfds, rfl⟩ := Option.map_eq_some_iff.mp hs
      exact ⟨fun _ _ => FdManager.step_isSome hfds nofun, fun _ => id⟩
  | expire probe now =>
    obtain ⟨-, rfl⟩ := expire_cases hs
    exact .same rfl fun _ => id
  | fire j =>
    obtain ⟨cb, -, ⟨-, rfl⟩ | ⟨-, rfl⟩⟩ := fire_cases hs
    · exact .same rfl fun _ => cancelled_of_modify
    · exact .same rfl fun _ => id
  | cancelEvent j refused =>
    obtain ⟨cb, -, ⟨-, rfl⟩ | ⟨ok, events, -, -, rfl⟩⟩ := cancelEvent_cases hs
    · exact .same rfl fun _ => id
    · exact .same rfl fun _ => id
  | wait w reports | dispatch w =>
    obtain ⟨events, -, rfl⟩ := Option.map_eq_some_iff.mp hs
    exact .same rfl fun _ => id

/-! ### How a call of `connect` goes on in it -/

/-- What the steps that `connect_with_timeout` takes like `do_io` do to its call. -/
structure Advances (s : Hook m n) (f : Fin m) (c d : IoCall) : Prop where
  fd : d.fd = c.fd
  info : d.info = c.info
  woken : d.pc = .resumed ∨ d.pc = .check → entry f ∈ s.events.scheduled ∨ c.pc = .resumed ∨ c.pc = .check
  syscall : d.pc = .syscall → c.pc = .syscall

theorem Advances.refl (s : Hook m n) (f : Fin m) (c : IoCall) : Advances s f c c := ⟨rfl, rfl, .inr, id⟩

/-- One task is replaced. -/
theorem advances_setTask (hc : s.tasks f = .io c) (htasks : u.tasks = s.tasks) (hg : g = f → ∃ d, task = .io d ∧ Advances s f c d) :
    ∃ d, (u.setTask g task).tasks f = .io d ∧ Advances s f c d := by
  by_cases hgf : f = g
  · subst hgf
    rw [setTask_self]
    exact hg rfl
  · rw [setTask_of_ne hgf, htasks]
    exact ⟨c, hc, .refl s f c⟩

/-- The task of another fiber is replaced. -/
theorem advances_other (hc : s.tasks f = .io c) (htasks : u.tasks = s.tasks) (hg : g ≠ f) :
    ∃ d, (u.setTask g task).tasks f = .io d ∧ Advances s f c d :=
  advances_setTask hc htasks fun hgf => absurd hgf hg

end Hook

namespace Connects

open Hook

variable {m n : Nat} {x y : Connects m n} {s t : Hook m n} {f g : Fin m} {c d : IoCall} {fd k : Nat}

/-- The step is not one of those that `connect_with_timeout` takes on its own. -/
theorem advances_step {a : Hook.Act m n} (hf : x.connecting f = true) (hown : x.own a = false) (hc : x.hook.tasks f = .io c)
    (hs : x.hook.step a = some t) : ∃ d, t.tasks f = .io d ∧ Advances x.hook f c d := by
  have hfree : ∀ {g}, (x.hook.tasks g).free = true → g ≠ f := by
    rintro g hg rfl
    rw [hc] at hg
    cases hg
  have hfalse : ∀ {g}, x.connecting g = false → g ≠ f := by
    rintro g hg rfl
    rw [hf] at hg
    cases hg
  cases a with
  | doIo g fd event accept =>
    obtain ⟨hg, heq⟩ := Option.ite_none_right_eq_some.mp hs
    obtain rfl := Option.some.inj heq
    rcases doIo_cases x.hook g fd event accept with heq | heq | ⟨timeout, heq⟩
    · rw [heq]
      exact advances_other hc rfl (hfree hg)
    · rw [heq]
      exact advances_other hc rfl (hfree hg)
    · rw [heq]
      exact advances_other hc rfl (hfree hg)
  | issue g r =>
    have hg := hfalse hown
    have hfinish : ∀ (u : Hook m n) closed, u.tasks = x.hook.tasks → ∃ d, (u.finish g closed r).tasks f = .io d ∧ Advances x.hook f c d := by
      intro u closed hu
      rcases finish_cases u g closed r with ⟨k, heq⟩ | ⟨fd, fds, heq⟩
      · rw [heq]
        exact advances_other hc hu hg
      · rw [heq]
        exact advances_other hc hu hg
    rcases issue_cases hs with ⟨fd, accept, closed, -, rfl⟩ | ⟨d, -, -, rfl | rfl | rfl⟩
    · exact hfinish _ _ rfl
    · exact ⟨c, hc, .refl ..⟩
    · exact advances_other hc rfl hg
    · exact hfinish _ _ rfl
  | arm g addr now =>
    obtain ⟨d, hd, hpc, ⟨-, -, rfl⟩ | ⟨-, rfl⟩⟩ := arm_cases hs
    all_goals
      refine advances_setTask hc rfl fun hgf => ⟨_, rfl, ?_⟩
      obtain rfl := Task.io.inj (hc.symm.trans (hgf ▸ hd))
      exact ⟨rfl, rfl, nofun, nofun⟩
  | addEvent g refused =>
    have hg := hfalse hown
    obtain ⟨d, ok, events, -, -, -, ⟨-, rfl⟩ | ⟨timers, -, -, rfl⟩⟩ := addEvent_cases hs
    · exact advances_other hc rfl hg
    · exact advances_other hc rfl hg
  | yield g =>
    obtain ⟨d, hd, -, rfl⟩ := yield_cases hs
    refine advances_setTask hc rfl fun hgf => ⟨_, rfl, ?_⟩
    obtain rfl := Task.io.inj (hc.symm.trans (hgf ▸ hd))
    exact ⟨rfl, rfl, nofun, nofun⟩
  | resume g =>
    have hin := resume_scheduled hs
    obtain ⟨d, hd, -, rfl⟩ := resume_cases hs
    refine advances_setTask hc rfl fun hgf => ⟨_, rfl, ?_⟩
    obtain rfl := Task.io.inj (hc.symm.trans (hgf ▸ hd))
    exact ⟨rfl, rfl, fun _ => .inl (hgf ▸ hin), nofun⟩
  | cancelTimer g =>
    obtain ⟨d, timers, hd, hpc, -, rfl⟩ := cancelTimer_cases hs
    refine advances_setTask hc rfl fun hgf => ⟨_, rfl, ?_⟩
    obtain rfl := Task.io.inj (hc.symm.trans (hgf ▸ hd))
    exact ⟨rfl, rfl, fun _ => .inr (.inl hpc), nofun⟩
  | check g =>
    have hg := hfalse hown
    obtain ⟨d, -, -, ⟨-, rfl⟩ | ⟨-, rfl⟩⟩ := check_cases hs
    · exact advances_other hc rfl hg
    · exact advances_other hc rfl hg
  | context g =>
    obtain ⟨fd, htask, rfl⟩ := context_cases hs
    refine advances_setTask hc rfl fun hgf => ?_
    rw [hgf, hc] at htask
    cases htask
  | close g fd refused =>
    obtain ⟨hg, rfl | ⟨ok, events, -, rfl⟩⟩ := close_cases hs
    · exact advances_other hc rfl (hfree hg)
    · exact advances_other hc rfl (hfree hg)
  | closeFd g =>
    obtain ⟨fd, htask, rfl⟩ := closeFd_cases hs
    have hg : f ≠ g := by
      rintro rfl
      rw [hc] at htask
      cases htask
    refine ⟨{ c with closed := c.closed || c.fd = fd }, ?_, rfl, rfl, .inr, id⟩
    have hclose : (x.hook.tasks f).close fd = .io { c with closed := c.closed || c.fd = fd } := congrArg (Task.close fd) hc
    exact (Function.update_of_ne hg _ fun g => (x.hook.tasks g).close fd).trans hclose
  | onFd a =>
    obtain ⟨fds, rfl⟩ := onFd_cases hs
    exact ⟨c, hc, .refl ..⟩
  | expire probe now =>
    obtain ⟨-, rfl⟩ := expire_cases hs
    exact ⟨c, hc, .refl ..⟩
  | fire j =>
    obtain ⟨cb, -, ⟨-, rfl⟩ | ⟨-, rfl⟩⟩ := fire_cases hs
    · exact ⟨c, hc, .refl ..⟩
    · exact ⟨c, hc, .refl ..⟩
  | cancelEvent j refused =>
    obtain ⟨cb, -, ⟨-, rfl⟩ | ⟨ok, events, -, -, rfl⟩⟩ := cancelEvent_cases hs
    · exact ⟨c, hc, .refl ..⟩
    · exact ⟨c, hc, .refl ..⟩
  | wait w reports | dispatch w =>
    obtain ⟨events, -, rfl⟩ := Option.map_eq_some_iff.mp hs
    exact ⟨c, hc, .refl ..⟩

/-! ### A call that nothing disturbs -/

/-- It is alone on its descriptor, which is open, and it is woken by its own timeout or when the socket has its answer. -/
structure Undisturbed (x : Connects m n) (f : Fin m) (c : IoCall) : Prop where
  file : (x.hook.fds.files c.fd).isSome
  begun : x.peers c.fd ≠ .unconnected
  alone : ∀ g, g ≠ f → x.target g ≠ some c.fd
  woken : entry f ∈ x.hook.events.scheduled ∨ c.pc = .resumed ∨ c.pc = .check →
    x.hook.cancelled c.info = true ∨ x.peers c.fd ≠ .connecting
  settled : c.pc = .syscall → x.peers c.fd ≠ .connecting

structure Connecting (x : Connects m n) : Prop where
  slots : x.hook.Slots
  calls : ∀ f, x.connecting f = true → ∃ c, x.hook.tasks f = .io c ∧ (x.disturbed f = false → x.Undisturbed f c)
  answers : ∀ f r, x.answers f = some r → r.answer = .ok → r.peer = .connected ∨ r.disturbed = true

theorem target_of (hf : x.connecting f = true) (hc : x.hook.tasks f = .io c) : x.target f = some c.fd := by
  unfold target
  rw [hf, hc]

theorem target_of_false (hf : x.connecting f = false) : x.target f = none := by
  unfold target
  rw [hf]

/-- What such a call sees of a step. -/
structure Sees (x y : Connects m n) (f : Fin m) (c d : IoCall) : Prop where
  fd : d.fd = c.fd
  info : d.info = c.info
  file : (x.hook.fds.files c.fd).isSome → (y.hook.fds.files c.fd).isSome
  begun : x.peers c.fd ≠ .unconnected → y.peers c.fd ≠ .unconnected
  settled : x.peers c.fd ≠ .connecting → y.peers c.fd ≠ .connecting
  alone : ∀ g, g ≠ f → y.target g = some c.fd → x.target g = some c.fd
  cancelled : x.hook.cancelled c.info = true → y.hook.cancelled c.info = true
  woken : entry f ∈ y.hook.events.scheduled ∨ d.pc = .resumed ∨ d.pc = .check →
    (entry f ∈ x.hook.events.scheduled ∨ c.pc = .resumed ∨ c.pc = .check) ∨ y.hook.cancelled c.info = true ∨ y.peers c.fd ≠ .connecting
  syscall : d.pc = .syscall → c.pc = .syscall

theorem Undisturbed.sees (h : x.Undisturbed f c) (hs : Sees x y f c d) : y.Undisturbed f d where
  file := hs.fd ▸ hs.file h.file
  begun := hs.fd ▸ hs.begun h.begun
  alone g hg htarget := h.alone g hg (hs.alone g hg (hs.fd ▸ htarget))
  woken hwoken := by
    rw [hs.fd, hs.info]
    rcases hs.woken hwoken with hbefore | hnow
    · exact (h.woken hbefore).imp hs.cancelled hs.settled
    · exact hnow
  settled hpc := hs.fd ▸ hs.settled (h.settled (hs.syscall hpc))

/-! ### Steps like those of `do_io` -/

theorem issue_accepted {flags : Flags} (h : s.issue f (.accepted fd flags) = some t) : (s.fds.files fd).isNone = true := by
  have hpossible : ∀ {fd' accept}, s.possible fd' accept (.accepted fd flags) = true → (s.fds.files fd).isNone = true :=
    fun hp => (Bool.and_eq_true_iff.mp hp).2
  unfold Hook.issue at h
  split at h
  · exact hpossible (Option.ite_none_right_eq_some.mp h).1
  · exact hpossible (Option.ite_none_right_eq_some.mp h).1.2
  · cases h

theorem peersAfter_eq {a : Hook.Act m n} {peers : Nat → Peer} (hs : s.step a = some t) (h : (s.fds.files fd).isSome) :
    peersAfter peers a fd = peers fd := by
  have hne : ∀ {fd'}, (s.fds.files fd').isNone = true → fd ≠ fd' := by
    rintro fd' hnone rfl
    rw [Option.isNone_iff_eq_none.mp hnone] at h
    cases h
  cases a with
  | issue f r =>
    cases r with
    | accepted fd' flags => exact Function.update_of_ne (hne (issue_accepted hs)) ..
    | done | eintr | eagain | failed => rfl
  | onFd a =>
    cases a with
    | socket ret =>
      rcases ret with _ | ⟨fd', flags⟩
      · rfl
      · obtain ⟨fds, hfds, -⟩ := Option.map_eq_some_iff.mp hs
        exact Function.update_of_ne (hne (Option.isNone_iff_eq_none.mpr (FdManager.step_opened hfds rfl).1)) ..
    | accept | setsockopt | setfl | fionbio | close => rfl
  | _ => rfl

/-- What wakes the fiber is its own timeout, or the answer of the socket. -/
theorem Connecting.woken {a : Hook.Act m n} {e : IOManager.Event} (h : x.Connecting) (hmark : x.disturbs f (.hook a) = false)
    (htarget : x.target f = some c.fd) (hc : x.hook.tasks f = .io c) (hw : x.hook.Woken a c.fd e) :
    x.hook.cancelled c.info = true ∨ x.peers c.fd ≠ .connecting := by
  cases a with
  | close g fd refused =>
    obtain rfl : c.fd = fd := hw
    exact absurd htarget (of_decide_eq_false hmark)
  | cancelEvent j refused =>
    obtain ⟨cb, hcb, hfd, -⟩ := hw
    refine .inl ?_
    by_cases hinfo : cb.info = c.info
    · exact hinfo ▸ h.slots.running cb (List.mem_of_getElem? hcb)
    · unfold disturbs at hmark
      dsimp only at hmark
      rw [hcb, hc, htarget, hfd] at hmark
      simp [hinfo] at hmark
  | dispatch w =>
    obtain ⟨mask, rest, hreports⟩ := hw
    unfold disturbs at hmark
    dsimp only at hmark
    rw [hreports, htarget] at hmark
    exact .inr (by simpa using hmark)
  | _ => exact hw.elim

theorem Connecting.hook {a : Hook.Act m n} (h : x.Connecting) (hmark : ∀ f, x.disturbed f = false → x.disturbs f (.hook a) = false)
    (hown : x.own a = false) (hs : x.hook.step a = some t) : Connecting { x with hook := t, peers := peersAfter x.peers a } := by
  have hslots := h.slots.step hs
  have hkeeps := keeps_step hs
  have htargets : ∀ g, target { x with hook := t, peers := peersAfter x.peers a } g = x.target g := by
    intro g
    rcases hg : x.connecting g with _ | _
    · rw [target_of_false hg]
      exact target_of_false hg
    · obtain ⟨c, hc, -⟩ := h.calls g hg
      obtain ⟨d, hd, hadvances⟩ := advances_step hg hown hc hs
      rw [target_of hg hc, ← hadvances.fd]
      exact target_of hg hd
  refine ⟨hslots.slots, fun f (hf : x.connecting f = true) => ?_, h.answers⟩
  obtain ⟨c, hc, hcall⟩ := h.calls f hf
  obtain ⟨d, hd, hadvances⟩ := advances_step hf hown hc hs
  refine ⟨d, hd, fun hundisturbed => ?_⟩
  have hundisturbed := hcall hundisturbed
  have hmark := hmark f ‹_›
  have htarget := target_of hf hc
  have hpeer : ∀ {p}, x.peers c.fd ≠ p → peersAfter x.peers a c.fd ≠ p := fun hp => (peersAfter_eq hs hundisturbed.file).trans_ne hp
  have hclose : ∀ g, a = .closeFd g → x.hook.tasks g ≠ .closing c.fd := by
    rintro g rfl htask
    unfold disturbs at hmark
    dsimp only at hmark
    rw [htask] at hmark
    exact of_decide_eq_false hmark htarget
  refine hundisturbed.sees ⟨hadvances.fd, hadvances.info, hkeeps.files c.fd hclose, hpeer, hpeer,
    fun g _ hg => (htargets g) ▸ hg, hkeeps.cancelled c.info, ?_, hadvances.syscall⟩
  rintro (hin | hpc)
  · rcases hslots.woken f hin with hbefore | ⟨fd, e, ⟨c', hc', rfl, rfl, -⟩, hw⟩
    · exact .inl (.inl hbefore)
    · obtain rfl := Task.io.inj (hc.symm.trans hc')
      exact .inr ((h.woken hmark htarget hc hw).imp (hkeeps.cancelled _) hpeer)
  · exact .inl (hadvances.woken hpc)

/-! ### Steps of a fiber -/

/-- What a step of one fiber leaves alone. -/
structure Moves (x y : Connects m n) (f : Fin m) : Prop where
  tasks : ∀ g, g ≠ f → y.hook.tasks g = x.hook.tasks g
  connecting : ∀ g, g ≠ f → y.connecting g = x.connecting g
  disturbed : ∀ g, g ≠ f → y.disturbed g = x.disturbed g
  files : y.hook.fds = x.hook.fds
  scheduled : y.hook.events.scheduled = x.hook.events.scheduled
  cancelled : ∀ k, x.hook.cancelled k = true → y.hook.cancelled k = true
  alone : ∀ g fd, g ≠ f → x.disturbed g = false → x.target g = some fd → y.target f = some fd → x.target f = some fd
  peers : ∀ g fd, g ≠ f → x.disturbed g = false → x.target g = some fd → y.peers fd = x.peers fd

theorem Moves.target (hm : Moves x y f) (hg : g ≠ f) : y.target g = x.target g := by
  unfold Connects.target
  rw [hm.tasks g hg, hm.connecting g hg]

theorem Moves.sees (hm : Moves x y f) (hg : g ≠ f) (hundisturbed : x.disturbed g = false) (htarget : x.target g = some c.fd) :
    Sees x y g c c where
  fd := rfl
  info := rfl
  file h := by rwa [hm.files]
  begun h := by rwa [hm.peers g c.fd hg hundisturbed htarget]
  settled h := by rwa [hm.peers g c.fd hg hundisturbed htarget]
  alone k _ hk := by
    by_cases hkf : k = f
    · subst hkf
      exact hm.alone g c.fd hg hundisturbed htarget hk
    · exact (hm.target hkf).symm.trans hk
  cancelled := hm.cancelled c.info
  woken h := .inl (by rwa [hm.scheduled] at h)
  syscall := id

theorem Connecting.moved (h : x.Connecting) (hm : Moves x y f) (hslots : y.hook.Slots)
    (hown : y.connecting f = true → ∃ c, y.hook.tasks f = .io c ∧ (y.disturbed f = false → y.Undisturbed f c))
    (hanswers : ∀ g r, y.answers g = some r → r.answer = .ok → r.peer = .connected ∨ r.disturbed = true) : y.Connecting where
  slots := hslots
  calls g hg := by
    by_cases hgf : g = f
    · subst hgf
      exact hown hg
    · rw [hm.connecting g hgf] at hg
      obtain ⟨c, hc, hcall⟩ := h.calls g hg
      refine ⟨c, (hm.tasks g hgf).trans hc, fun hundisturbed => ?_⟩
      rw [hm.disturbed g hgf] at hundisturbed
      exact (hcall hundisturbed).sees (hm.sees hgf hundisturbed (target_of hg hc))
  answers := hanswers

theorem answered_self {answer : ConnectAnswer} {peer : Peer} : (x.answered f answer peer).answers f = some ⟨answer, peer, x.disturbed f⟩ :=
  Function.update_self ..

/-- A call returns. -/
theorem Connecting.answered {u : Hook m n} {task : Task} {peers : Nat → Peer} {answer : ConnectAnswer} {peer : Peer} (h : x.Connecting)
    (hslots : (u.setTask f task).Slots) (htasks : u.tasks = x.hook.tasks) (hfds : u.fds = x.hook.fds)
    (hscheduled : u.events.scheduled = x.hook.events.scheduled) (hcancelled : ∀ k, x.hook.cancelled k = true → u.cancelled k = true)
    (hpeers : ∀ g fd, g ≠ f → x.disturbed g = false → x.target g = some fd → peers fd = x.peers fd)
    (hok : answer = .ok → peer = .connected ∨ x.disturbed f = true) :
    Connecting (Connects.answered { x with hook := u.setTask f task, peers } f answer peer) := by
  have hreturned : (Connects.answered { x with hook := u.setTask f task, peers } f answer peer).connecting f = false := Function.update_self ..
  refine h.moved ⟨fun g hg => ?_, fun g hg => Function.update_of_ne hg .., fun _ _ => rfl, hfds, hscheduled, hcancelled, fun g fd _ _ _ hf => ?_,
    hpeers⟩ hslots (fun hf => ?_) fun g r hr hanswer => ?_
  · exact (setTask_of_ne hg).trans (congrFun htasks g)
  · rw [target_of_false hreturned] at hf
    cases hf
  · rw [hreturned] at hf
    cases hf
  · by_cases hg : g = f
    · subst hg
      obtain rfl := Option.some.inj (answered_self.symm.trans hr)
      exact hok hanswer
    · exact h.answers g r ((Function.update_of_ne hg ..).symm.trans hr) hanswer

/-- `connect` ends before it waits. -/
theorem Connecting.returned {peers : Nat → Peer} {r : Option Nat} (h : x.Connecting) (hfree : (x.hook.tasks f).free = true)
    (hpeers : ∀ g fd, g ≠ f → x.disturbed g = false → x.target g = some fd → peers fd = x.peers fd) :
    Connecting (Connects.returned { x with peers } f r) := by
  have hf : x.connecting f = false := by
    refine Bool.eq_false_iff.mpr fun hf => ?_
    obtain ⟨c, hc, -⟩ := h.calls f hf
    rw [hc] at hfree
    cases hfree
  refine h.moved ⟨fun g hg => setTask_of_ne hg, fun _ _ => rfl, fun _ _ => rfl, rfl, rfl, fun _ => id, fun g fd _ _ _ htarget => ?_, hpeers⟩
    (h.slots.setTask (awake_of_free hfree)) (fun hconnecting => ?_) h.answers
  · have hnone : target (Connects.returned { x with peers } f r) f = none := target_of_false hf
    rw [hnone] at htarget
    cases htarget
  · have hconnecting : x.connecting f = true := hconnecting
    rw [hf] at hconnecting
    cases hconnecting

/-! ### The steps of `connect` -/

theorem Connecting.setPeer {peer : Peer} (h : x.Connecting) (hbegun : peer ≠ .unconnected) (hsettled : peer ≠ .connecting) :
    (x.setPeer fd peer).Connecting := by
  have hset : ∀ {i p}, peer ≠ p → x.peers i ≠ p → (x.setPeer fd peer).peers i ≠ p := by
    intro i p hpeer hi
    by_cases hfd : i = fd
    · rw [hfd]
      exact (Function.update_self ..).trans_ne hpeer
    · exact (Function.update_of_ne hfd ..).trans_ne hi
  refine ⟨h.slots, fun f hf => ?_, h.answers⟩
  obtain ⟨c, hc, hcall⟩ := h.calls f hf
  exact ⟨c, hc, fun hundisturbed => (hcall hundisturbed).sees
    ⟨rfl, rfl, id, hset hbegun, hset hsettled, fun _ _ => id, id, .inl, id⟩⟩

theorem Connecting.settle {error : Option Nat} (h : x.Connecting) (hs : x.settle fd error = some y) : y.Connecting := by
  unfold Connects.settle at hs
  split at hs
  · obtain rfl := Option.some.inj hs
    exact h.setPeer nofun nofun
  · obtain rfl := Option.some.inj hs
    exact h.setPeer nofun nofun
  · obtain rfl := Option.some.inj hs
    exact h.setPeer nofun nofun
  · cases hs

/-- Another call takes the error away, which disturbs those that connect on the descriptor. -/
theorem Connecting.taken (h : x.Connecting) (hmark : ∀ f, x.disturbed f = false → x.disturbs f (.taken fd) = false)
    (hs : x.taken fd = some y) : y.Connecting := by
  unfold Connects.taken at hs
  split at hs
  · obtain rfl := Option.some.inj hs
    refine ⟨h.slots, fun f hf => ?_, h.answers⟩
    obtain ⟨c, hc, hcall⟩ := h.calls f hf
    refine ⟨c, hc, fun hundisturbed => (hcall hundisturbed).sees ?_⟩
    have hfd : c.fd ≠ fd := by
      rintro rfl
      exact of_decide_eq_false (hmark f hundisturbed) (target_of hf hc)
    have hpeer : (x.setPeer fd .unconnected).peers c.fd = x.peers c.fd := Function.update_of_ne hfd ..
    exact ⟨rfl, rfl, id, hpeer.trans_ne, hpeer.trans_ne, fun _ _ => id, id, .inl, id⟩
  · cases hs

/-- The fiber stays in its call. -/
theorem moves_goes {u : Hook m n} {marks : Fin m → Bool} (hf : x.connecting f = true) (hc : x.hook.tasks f = .io c) (hfd : d.fd = c.fd)
    (htasks : u.tasks = x.hook.tasks) (hfds : u.fds = x.hook.fds) (hscheduled : u.events.scheduled = x.hook.events.scheduled)
    (hcancelled : ∀ k, x.hook.cancelled k = true → u.cancelled k = true) (hmarks : ∀ g, g ≠ f → marks g = x.disturbed g) :
    Moves x { x with hook := u.setTask f (.io d), disturbed := marks } f := by
  have htarget : target { x with hook := u.setTask f (.io d), disturbed := marks } f = some d.fd := target_of hf setTask_self
  refine ⟨fun g hg => (setTask_of_ne hg).trans (congrFun htasks g), fun _ _ => rfl, hmarks, hfds, hscheduled, hcancelled,
    fun g fd _ _ _ hgoes => ?_, fun _ _ _ _ _ => rfl⟩
  rw [target_of hf hc, ← hfd]
  exact htarget.symm.trans hgoes

theorem Undisturbed.goes (h : x.Undisturbed f c) (hm : Moves x y f) (hfd : d.fd = c.fd) (hpeers : y.peers = x.peers)
    (hwoken : entry f ∈ x.hook.events.scheduled ∨ d.pc = .resumed ∨ d.pc = .check →
      y.hook.cancelled d.info = true ∨ x.peers c.fd ≠ .connecting)
    (hsettled : d.pc = .syscall → x.peers c.fd ≠ .connecting) : y.Undisturbed f d where
  file := by
    rw [hm.files, hfd]
    exact h.file
  begun := by
    rw [hpeers, hfd]
    exact h.begun
  alone g hg := by
    rw [hm.target hg, hfd]
    exact h.alone g hg
  woken := by
    rw [hm.scheduled, hpeers, hfd]
    exact hwoken
  settled := by
    rw [hpeers, hfd]
    exact hsettled

theorem Connecting.check (h : x.Connecting) (hf : x.connecting f = true) (hs : x.check f = some y) : y.Connecting := by
  unfold Connects.check at hs
  split at hs
  · rename_i c hc
    obtain ⟨t, ht, rfl⟩ := Option.map_eq_some_iff.mp hs
    have hslots : t.Slots := (h.slots.step (a := .check f) ht).slots
    obtain ⟨d, hd, hpc, ⟨hcancelled, rfl⟩ | ⟨hcancelled, rfl⟩⟩ := check_cases ht
    all_goals
      obtain rfl := Task.io.inj (hc.symm.trans hd)
      unfold Hook.cancelled at hcancelled
    · rw [if_pos hcancelled]
      exact h.answered hslots rfl rfl rfl (fun _ hk => cancelled_drop.trans hk) (fun _ _ _ _ _ => rfl) nofun
    · rw [if_neg (Bool.eq_false_iff.mp hcancelled)]
      have hm : Moves x { x with hook := x.hook.setTask f (.io { c with pc := .syscall }) } f :=
        moves_goes hf hc rfl rfl rfl rfl (fun _ => id) fun _ _ => rfl
      refine h.moved hm hslots (fun _ => ⟨_, setTask_self, fun hundisturbed => ?_⟩) h.answers
      obtain ⟨c', hc', hcall⟩ := h.calls f hf
      obtain rfl := Task.io.inj (hc.symm.trans hc')
      have hcall := hcall hundisturbed
      -- its timeout has not struck, so that the answer of the socket has woken it
      have hsettled : x.peers c.fd ≠ .connecting := by
        rcases hcall.woken (.inr (.inr hpc)) with hstruck | hpeer
        · exact absurd hstruck (Bool.eq_false_iff.mp hcancelled)
        · exact hpeer
      exact hcall.goes hm rfl rfl (fun _ => .inr hsettled) fun _ => hsettled
  · cases hs

theorem target_eq_some (h : x.target g = some fd) : ∃ d, x.connecting g = true ∧ x.hook.tasks g = .io d ∧ d.fd = fd := by
  unfold target at h
  split at h
  · exact ⟨_, ‹_›, ‹_›, Option.some.inj h⟩
  · cases h

theorem Connecting.getsockopt (h : x.Connecting) (hf : x.connecting f = true) (hs : x.getsockopt f = some y) : y.Connecting := by
  unfold Connects.getsockopt at hs
  split at hs
  · rename_i c hc
    obtain ⟨hpc, hs⟩ := Option.ite_none_right_eq_some.mp hs
    have hslots : ∀ task, ((x.hook.drop c.info).setTask f task).Slots := fun task =>
      (h.slots.drop c.info).setTask (awake hc (by rw [hpc]; rfl))
    have hdrop : ∀ k, x.hook.cancelled k = true → (x.hook.drop c.info).cancelled k = true := fun _ hk => cancelled_drop.trans hk
    split at hs
    · obtain rfl := Option.some.inj hs
      exact h.answered (hslots _) rfl rfl rfl hdrop (fun _ _ _ _ _ => rfl) nofun
    · split at hs
      · obtain rfl := Option.some.inj hs
        refine h.answered (hslots _) rfl rfl rfl hdrop (fun g fd hg hundisturbed htarget => Function.update_of_ne ?_ ..) nofun
        rintro rfl
        obtain ⟨d, hconnecting, hd, hfd⟩ := target_eq_some htarget
        obtain ⟨d', hd', hcall⟩ := h.calls g hconnecting
        obtain rfl := Task.io.inj (hd.symm.trans hd')
        exact (hcall hundisturbed).alone f (Ne.symm hg) (hfd ▸ target_of hf hc)
      · rename_i hrefused
        obtain rfl := Option.some.inj hs
        refine h.answered (hslots _) rfl rfl rfl hdrop (fun _ _ _ _ _ => rfl) fun _ => ?_
        obtain ⟨c', hc', hcall⟩ := h.calls f hf
        obtain rfl := Task.io.inj (hc.symm.trans hc')
        rcases hdisturbed : x.disturbed f with _ | _
        · have hcall := hcall hdisturbed
          rcases hpeer : x.peers c.fd with _ | _ | _ | e
          · exact absurd hpeer hcall.begun
          · exact absurd hpeer (hcall.settled hpc)
          · exact .inl rfl
          · exact (hrefused e hpeer).elim
        · exact .inr rfl
  · cases hs

/-- The event is added, or the call goes on without it, which disturbs it. -/
theorem Connecting.addEvent {refused : Bool} (h : x.Connecting) (hf : x.connecting f = true) (hs : x.addEvent f refused = some y) :
    y.Connecting := by
  unfold Connects.addEvent at hs
  split at hs
  · rename_i c hc
    obtain ⟨hpc, hs⟩ := Option.ite_none_right_eq_some.mp hs
    have hawake : x.hook.Awake f := awake hc (by rw [hpc]; rfl)
    split at hs
    · rename_i events hadd
      obtain rfl := Option.some.inj hs
      obtain ⟨hslots, hscheduled⟩ := h.slots.addEventOf (.io { c with pc := .registered }) hawake hadd fun _ =>
        ⟨_, setTask_self, rfl, rfl, rfl⟩
      have hm : Moves x { x with hook := Hook.setTask { x.hook with events } f (.io { c with pc := .registered }) } f :=
        moves_goes hf hc rfl rfl rfl hscheduled (fun _ => id) fun _ _ => rfl
      refine h.moved hm hslots (fun _ => ⟨_, setTask_self, fun hundisturbed => ?_⟩) h.answers
      obtain ⟨c', hc', hcall⟩ := h.calls f hf
      obtain rfl := Task.io.inj (hc.symm.trans hc')
      exact (hcall hundisturbed).goes hm rfl rfl (fun hwoken => (hcall hundisturbed).woken (hwoken.imp_right nofun)) nofun
    · rename_i events hadd
      obtain ⟨timers, -, rfl⟩ := Option.map_eq_some_iff.mp hs
      obtain ⟨hslots, hscheduled⟩ := h.slots.addEventOf (.io { c with pc := .syscall, timer := none }) hawake hadd nofun
      have hm : Moves x { x with
          hook := Hook.setTask { x.hook with events, timers } f (.io { c with pc := .syscall, timer := none })
          disturbed := Function.update x.disturbed f true } f :=
        moves_goes hf hc rfl rfl rfl hscheduled (fun _ => id) fun g hg => Function.update_of_ne hg ..
      refine h.moved hm (hslots.of rfl rfl (fun _ _ _ => id) h.slots.running) (fun _ => ⟨_, setTask_self, fun hundisturbed => ?_⟩) h.answers
      have htrue : Function.update x.disturbed f true f = false := hundisturbed
      rw [Function.update_self] at htrue
      cases htrue
    · cases hs
  · cases hs

/-- The fiber is in `connect` from here on. -/
def begun (x : Connects m n) (f : Fin m) (fd : Nat) (info : TimerInfo) (c : IoCall) : Connects m n :=
  { x.setPeer fd .connecting with
    hook := Hook.setTask { x.hook with infos := x.hook.infos ++ [info] } f (.io c)
    connecting := Function.update x.connecting f true
    disturbed := Function.update x.disturbed f (decide (∃ g, g ≠ f ∧ x.target g = some fd)) }

theorem Connecting.begun {info : TimerInfo} (h : x.Connecting) (hother : ∀ g, x.disturbed g = false → x.target g ≠ some fd)
    (hpeers : ∀ g i, g ≠ f → x.disturbed g = false → x.target g = some i → Function.update x.peers fd .connecting i = x.peers i)
    (hawake : x.hook.Awake f) (hfile : (x.hook.fds.files fd).isSome) (hcfd : c.fd = fd) (hpc : c.pc = .arm) :
    (x.begun f fd info c).Connecting := by
  have htarget : (x.begun f fd info c).target f = some c.fd := target_of (Function.update_self ..) setTask_self
  have hm : Moves x (x.begun f fd info c) f := by
    refine ⟨fun g hg => setTask_of_ne hg, fun g hg => Function.update_of_ne hg .., fun g hg => Function.update_of_ne hg .., rfl, rfl,
      fun _ => cancelled_of_append, fun g i _ hg hi hf => ?_, hpeers⟩
    obtain rfl : c.fd = i := Option.some.inj (htarget.symm.trans hf)
    exact absurd (hcfd ▸ hi) (hother g hg)
  have hslots : (x.begun f fd info c).hook.Slots :=
    h.slots.of rfl rfl (fun _ _ _ hw => hw.setTask (s := { x.hook with infos := x.hook.infos ++ [info] }) hawake)
      fun cb hcb => cancelled_of_append (h.slots.running cb hcb)
  refine h.moved hm hslots (fun _ => ⟨c, setTask_self, fun hundisturbed => ?_⟩) h.answers
  have hpeer : Function.update x.peers fd .connecting c.fd = .connecting := by
    rw [hcfd]
    exact Function.update_self ..
  have hnone : decide (∃ g, g ≠ f ∧ x.target g = some fd) = false := (Function.update_self ..).symm.trans hundisturbed
  refine ⟨hcfd ▸ hfile, hpeer.trans_ne nofun, fun g hg htarget => ?_, ?_, fun hsyscall => ?_⟩
  · rw [hm.target hg, hcfd] at htarget
    exact of_decide_eq_false hnone ⟨g, hg, htarget⟩
  · rintro (hin | hwoken | hwoken)
    · exact absurd hin (h.slots.not_scheduled hawake)
    · rw [hpc] at hwoken
      cases hwoken
    · rw [hpc] at hwoken
      cases hwoken
  · rw [hpc] at hsyscall
    cases hsyscall

theorem Connecting.connect {timeout : Nat} {r : ConnectResult} (h : x.Connecting)
    (hmark : ∀ g, x.disturbed g = false → x.disturbs g (.connect f fd timeout r) = false) (hfree : (x.hook.tasks f).free = true)
    (hpossible : x.possible fd r = true) : (x.connect f fd timeout r).Connecting := by
  have hother : ∀ g, x.disturbed g = false → x.target g ≠ some fd := fun g hg => of_decide_eq_false (hmark g hg)
  have hpeers : ∀ {peer : Peer} g i, g ≠ f → x.disturbed g = false → x.target g = some i →
      Function.update x.peers fd peer i = x.peers i := by
    intro peer g i _ hg htarget
    refine Function.update_of_ne ?_ ..
    rintro rfl
    exact hother g hg htarget
  have hawake : x.hook.Awake f := awake_of_free hfree
  unfold Connects.connect
  split
  · exact h.returned hfree fun _ _ _ _ _ => rfl
  · split
    · exact h.returned hfree fun _ _ _ _ _ => rfl
    · split
      · exact h.answered (h.slots.setTask hawake) rfl rfl rfl (fun _ => id) hpeers fun _ => .inl rfl
      · exact h.answered (h.slots.setTask hawake) rfl rfl rfl (fun _ => id) (fun _ _ _ _ _ => rfl) nofun
      · split
        · exact h.returned hfree hpeers
        · have hfile : (x.hook.fds.files fd).isSome := (Bool.and_eq_true_iff.mp hpossible).1
          exact h.begun hother hpeers hawake hfile rfl rfl

/-! ### Runs -/

/-- More is noted. -/
theorem Connecting.mark {marks : Fin m → Bool} (h : x.Connecting) : Connecting { x with disturbed := fun f => x.disturbed f || marks f } where
  slots := h.slots
  calls f hf := by
    obtain ⟨c, hc, hcall⟩ := h.calls f hf
    refine ⟨c, hc, fun hundisturbed => (hcall (Bool.or_eq_false_iff.mp hundisturbed).1).sees ?_⟩
    exact ⟨rfl, rfl, id, id, id, fun _ _ => id, id, .inl, id⟩
  answers := h.answers

theorem Connecting.move {a : Act m n} (h : x.Connecting) (hmark : ∀ f, x.disturbed f = false → x.disturbs f a = false)
    (hs : x.move a = some y) : y.Connecting := by
  cases a with
  | hook a =>
    unfold Connects.move at hs
    dsimp only at hs
    split at hs
    · cases hs
    · obtain ⟨t, ht, rfl⟩ := Option.map_eq_some_iff.mp hs
      exact h.hook hmark (Bool.eq_false_iff.mpr ‹_›) ht
  | connect f fd timeout r =>
    obtain ⟨hok, heq⟩ := Option.ite_none_right_eq_some.mp hs
    obtain rfl := Option.some.inj heq
    obtain ⟨hfree, hpossible⟩ := Bool.and_eq_true_iff.mp hok
    exact h.connect hmark hfree hpossible
  | addEvent f refused =>
    obtain ⟨hf, hs⟩ := Option.ite_none_right_eq_some.mp hs
    exact h.addEvent hf hs
  | check f =>
    obtain ⟨hf, hs⟩ := Option.ite_none_right_eq_some.mp hs
    exact h.check hf hs
  | getsockopt f =>
    obtain ⟨hf, hs⟩ := Option.ite_none_right_eq_some.mp hs
    exact h.getsockopt hf hs
  | settle fd error => exact h.settle hs
  | taken fd => exact h.taken hmark hs

theorem Connecting.step {a : Act m n} (h : x.Connecting) (hs : x.step a = some y) : y.Connecting :=
  h.mark.move (fun _ hf => (Bool.or_eq_false_iff.mp hf).2) hs

theorem connecting_init (files : Nat → Option File) (now : Nat) : Connecting (init files now : Connects m n) where
  slots := slots_init files now
  calls _ hf := by cases hf
  answers _ _ hr := by cases hr

variable {files : Nat → Option File} {now : Nat}

/-- In every run, a fiber is told that it is connected when its socket is, or the call was disturbed. -/
theorem connect_answers (h : Reach Connects.step (fun _ _ => True) (init files now : Connects m n) x) (f : Fin m) (r : Connected)
    (hr : x.answers f = some r) (hok : r.answer = .ok) : r.peer = .connected ∨ r.disturbed = true := by
  have hx : x.Connecting := h.invariant (connecting_init files now) fun _ _ _ hP _ hs => hP.step hs
  exact hx.answers f r hr hok

/-- A connection that is made while the fiber waits. -/
theorem connect_answers_made : ∃ x : Connects 1 1, exec Connects.step (fun _ _ => True) (init (fun _ => none) 0)
    [.hook (.onFd (.socket (some (3, 2)))), .connect 0 3 1000 .inProgress, .hook (.arm 0 16 10), .addEvent 0 false, .hook (.yield 0),
      .settle 3 none, .hook (.wait 0 [.ready 3 ⟨false, true, false, false⟩]), .hook (.dispatch 0), .hook (.resume 0), .hook (.cancelTimer 0),
      .check 0, .getsockopt 0] = some x ∧ ∃ r, x.answers 0 = some r ∧ r.answer = .ok ∧ r.disturbed = false ∧ r.peer = .connected := by
  obtain ⟨x, hx, hdecide⟩ : ∃ x : Connects 1 1, exec Connects.step (fun _ _ => True) (init (fun _ => none) 0)
      [.hook (.onFd (.socket (some (3, 2)))), .connect 0 3 1000 .inProgress, .hook (.arm 0 16 10), .addEvent 0 false, .hook (.yield 0),
        .settle 3 none, .hook (.wait 0 [.ready 3 ⟨false, true, false, false⟩]), .hook (.dispatch 0), .hook (.resume 0), .hook (.cancelTimer 0),
        .check 0, .getsockopt 0] = some x ∧ (x.answers 0).any (fun r => r.answer = .ok && !r.disturbed) = true :=
    (Option.any_eq_true _ _).mp (by decide +kernel)
  obtain ⟨r, hr, hanswer⟩ := (Option.any_eq_true _ _).mp hdecide
  obtain ⟨hok, hundisturbed⟩ := Bool.and_eq_true_iff.mp hanswer
  have hfalse : r.disturbed = false := Bool.not_eq_true' _ ▸ hundisturbed
  refine ⟨x, hx, r, hr, of_decide_eq_true hok, hfalse, ?_⟩
  exact (connect_answers (reach_of_exec hx) 0 r hr (of_decide_eq_true hok)).resolve_right (Bool.eq_false_iff.mp hfalse)

/-- `epoll_ctl` fails: `SO_ERROR` has nothing to tell yet, and the fiber is told that it is connected. -/
example : (exec Connects.step (fun _ _ => True) (init (fun _ => none) 0 : Connects 1 1)
    [.hook (.onFd (.socket (some (3, 2)))), .connect 0 3 1000 .inProgress, .hook (.arm 0 16 10), .addEvent 0 true, .getsockopt 0]).any
      (fun x => x.answers 0 = some ⟨.ok, .connecting, true⟩) = true := by decide +kernel

end Connects
end MyHttp

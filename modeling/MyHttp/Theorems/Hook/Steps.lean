import MyHttp.Hook
import MyHttp.Theorems.IOManager.Dispatch

/-! What each step of the hooked calls can do. -/

namespace MyHttp
namespace Hook

open IOManager Lib.Machine

variable {m n : Nat} {s t : Hook m n} {f g : Fin m} {c : IoCall} {fd addr now j : Nat} {r : SysResult}
  {refused : Bool} {task : Task}

@[simp] theorem setTask_self : (s.setTask f task).tasks f = task := Function.update_self ..

theorem setTask_of_ne (h : g ≠ f) : (s.setTask f task).tasks g = s.tasks g := Function.update_of_ne h ..

theorem setTask_cases (s : Hook m n) (f : Fin m) (task : Task) (g : Fin m) : (s.setTask f task).tasks g = s.tasks g ∨ g = f ∧ (s.setTask f task).tasks g = task := by
  by_cases h : g = f
  · exact Or.inr ⟨h, h ▸ setTask_self⟩
  · exact Or.inl (setTask_of_ne h)

theorem doIo_cases (s : Hook m n) (f : Fin m) (fd : Nat) (event : Event) (accept : Bool) :
    s.doIo f fd event accept = s.setTask f (.direct fd accept false) ∨
    s.doIo f fd event accept = s.setTask f (.returned none false) ∨
    ∃ timeout, s.doIo f fd event accept = Hook.setTask { s with infos := s.infos ++ [⟨false, true⟩] } f
      (.io ⟨fd, event, accept, timeout, s.infos.length, none, .syscall, false⟩) := by
  unfold doIo
  split
  · exact Or.inl rfl
  · exact Or.inr (Or.inl rfl)
  · exact Or.inr (Or.inr ⟨_, rfl⟩)

theorem finish_cases (s : Hook m n) (f : Fin m) (closed : Bool) (r : SysResult) :
    (∃ k, s.finish f closed r = s.setTask f (.returned k closed)) ∨
    ∃ fd fds, s.finish f closed r = Hook.setTask { s with fds } f (.accepted fd) := by
  cases r with
  | done k => exact Or.inl ⟨some k, rfl⟩
  | accepted fd flags => exact Or.inr ⟨fd, _, rfl⟩
  | eintr | eagain | failed => exact Or.inl ⟨none, rfl⟩

theorem issue_cases (h : s.issue f r = some t) :
    (∃ fd accept closed, s.tasks f = .direct fd accept closed ∧ t = s.finish f closed r) ∨
    ∃ c, s.tasks f = .io c ∧ c.pc = .syscall ∧
      (t = s ∨ t = s.setTask f (.io { c with pc := .arm }) ∨ t = (s.drop c.info).finish f c.closed r) := by
  unfold issue at h
  split at h
  · split at h
    · exact Or.inl ⟨_, _, _, ‹_›, (Option.some.inj h).symm⟩
    · cases h
  · rename_i c hc
    split at h
    · rename_i hpc
      refine Or.inr ⟨c, hc, hpc.1, ?_⟩
      split at h
      · exact Or.inl (Option.some.inj h).symm
      · exact Or.inr (Or.inl (Option.some.inj h).symm)
      · exact Or.inr (Or.inr (Option.some.inj h).symm)
    · cases h
  · cases h

theorem arm_cases (h : s.arm f addr now = some t) : ∃ c, s.tasks f = .io c ∧ c.pc = .arm ∧
    ((c.timeout ≠ maxUint64 ∧ s.unused addr = true ∧
      t = Hook.setTask { s with timers := (s.timers.addTimer addr now c.timeout (some c.callback) false).2 } f
        (.io { c with pc := .armed, timer := some addr })) ∨
    (c.timeout = maxUint64 ∧ t = s.setTask f (.io { c with pc := .armed, timer := none }))) := by
  unfold arm at h
  split at h
  · rename_i c hc
    split at h
    · rename_i hpc
      refine ⟨c, hc, hpc, ?_⟩
      split at h
      · rename_i htimeout
        split at h
        · exact Or.inl ⟨htimeout, ‹_›, (Option.some.inj h).symm⟩
        · cases h
      · exact Or.inr ⟨not_not.mp ‹_›, (Option.some.inj h).symm⟩
    · cases h
  · cases h

theorem addEvent_cases (h : s.addEvent f refused = some t) : ∃ c ok events, s.tasks f = .io c ∧ c.pc = .armed ∧
    s.events.addEvent c.fd c.event (some 0) f.val none (refused || (s.fds.files c.fd).isNone) = .ok (ok, events) ∧
    ((ok = true ∧ t = Hook.setTask { s with events } f (.io { c with pc := .registered })) ∨
    ∃ timers, ok = false ∧ cancelTimers s.timers c.timer = some timers ∧
      t = (Hook.drop { s with events, timers } c.info).setTask f (.returned none c.closed)) := by
  unfold addEvent at h
  split at h
  · rename_i c hc
    split at h
    · rename_i hpc
      split at h
      · exact ⟨c, true, _, hc, hpc, ‹_›, Or.inl ⟨rfl, (Option.some.inj h).symm⟩⟩
      · obtain ⟨timers, htimers, rfl⟩ := Option.map_eq_some_iff.mp h
        exact ⟨c, false, _, hc, hpc, ‹_›, Or.inr ⟨timers, rfl, htimers, rfl⟩⟩
      · cases h
    · cases h
  · cases h

theorem yield_cases (h : s.yield f = some t) :
    ∃ c, s.tasks f = .io c ∧ c.pc = .registered ∧ t = s.setTask f (.io { c with pc := .parked }) := by
  unfold yield at h
  split at h
  · split at h
    · exact ⟨_, ‹_›, ‹_›, (Option.some.inj h).symm⟩
    · cases h
  · cases h

theorem resume_cases (h : s.resume f = some t) : ∃ c, s.tasks f = .io c ∧ c.pc = .parked ∧
    t = Hook.setTask { s with events := { s.events with scheduled := s.events.scheduled.erase (entry f) } } f
      (.io { c with pc := .resumed }) := by
  unfold resume at h
  split at h
  · split at h
    · rename_i hpc
      exact ⟨_, ‹_›, hpc.1, (Option.some.inj h).symm⟩
    · cases h
  · cases h

theorem cancelTimer_cases (h : s.cancelTimer f = some t) : ∃ c timers, s.tasks f = .io c ∧ c.pc = .resumed ∧
    cancelTimers s.timers c.timer = some timers ∧
    t = Hook.setTask { s with timers } f (.io { c with pc := .check, timer := none }) := by
  unfold cancelTimer at h
  split at h
  · split at h
    · obtain ⟨timers, htimers, rfl⟩ := Option.map_eq_some_iff.mp h
      exact ⟨_, timers, ‹_›, ‹_›, htimers, rfl⟩
    · cases h
  · cases h

/-- The call has timed out. -/
def cancelled (s : Hook m n) (k : Nat) : Bool := s.infos[k]?.any (·.cancelled)

theorem check_cases (h : s.check f = some t) : ∃ c, s.tasks f = .io c ∧ c.pc = .check ∧
    ((s.cancelled c.info = true ∧ t = (s.drop c.info).setTask f (.returned none c.closed)) ∨
    (s.cancelled c.info = false ∧ t = s.setTask f (.io { c with pc := .syscall }))) := by
  unfold check at h
  split at h
  · rename_i c hc
    split at h
    · rename_i hpc
      refine ⟨c, hc, hpc, ?_⟩
      split at h
      · exact Or.inl ⟨‹_›, (Option.some.inj h).symm⟩
      · exact Or.inr ⟨Bool.eq_false_iff.mpr ‹_›, (Option.some.inj h).symm⟩
    · cases h
  · cases h

theorem context_cases (h : s.context f = some t) : ∃ fd, s.tasks f = .accepted fd ∧
    t = Hook.setTask { s with fds := s.fds.getCreate fd } f (.returned (some fd) false) := by
  unfold context at h
  split at h
  · exact ⟨_, ‹_›, (Option.some.inj h).symm⟩
  · cases h

theorem close_cases (h : s.close f fd refused = some t) : (s.tasks f).free = true ∧
    (t = s.setTask f (.closing fd) ∨ ∃ ok events, s.events.cancelAll fd = .ok (ok, events) ∧
      t = Hook.setTask { s with events } f (.closing fd)) := by
  unfold close at h
  split at h
  · refine ⟨‹_›, ?_⟩
    split at h
    · obtain ⟨⟨ok, events⟩, hr, rfl⟩ := Option.map_eq_some_iff.mp h
      exact Or.inr ⟨ok, events, Descriptors.toOption_eq_some.mp hr, rfl⟩
    · exact Or.inl (Option.some.inj h).symm
  · cases h

theorem closeFd_cases (h : s.closeFd f = some t) : ∃ fd, s.tasks f = .closing fd ∧
    t = { s with
      fds := s.fds.close fd
      events := { s.events with epoll := Function.update s.events.epoll fd none }
      tasks := Function.update (fun g => (s.tasks g).close fd) f (.returned (some 0) false) } := by
  unfold closeFd at h
  split at h
  · exact ⟨_, ‹_›, (Option.some.inj h).symm⟩
  · cases h

theorem onFd_cases {a : FdAct} (h : s.onFd a = some t) : ∃ fds, t = { s with fds } := by
  unfold onFd at h
  split at h
  · cases h
  · cases h
  · obtain ⟨fds, -, rfl⟩ := Option.map_eq_some_iff.mp h
    exact ⟨fds, rfl⟩

theorem expire_cases {probe : Nat} (h : s.expire probe now = some t) : s.unused probe = true ∧
    t = { s with
      timers := (s.timers.listExpiredCb probe now).2
      queued := s.queued ++ (s.timers.listExpiredCb probe now).1.filterMap id } := by
  unfold expire at h
  split at h
  · exact ⟨‹_›, (Option.some.inj h).symm⟩
  · cases h

/-- The call of the timer has not returned, and it has not timed out before. -/
def waits (s : Hook m n) (k : Nat) : Bool := s.infos[k]?.any fun i => i.held && !i.cancelled

theorem fire_cases (h : s.fire j = some t) : ∃ cb, s.queued[j]? = some cb ∧
    ((s.waits cb.info = true ∧ t = { s with
      queued := s.queued.eraseIdx j
      infos := s.infos.modify cb.info fun i => { i with cancelled := true }
      running := s.running ++ [cb] }) ∨
    (s.waits cb.info = false ∧ t = { s with queued := s.queued.eraseIdx j })) := by
  unfold fire at h
  obtain ⟨cb, hcb, h⟩ := Option.map_eq_some_iff.mp h
  refine ⟨cb, hcb, ?_⟩
  dsimp only at h
  split at h
  · exact Or.inl ⟨‹_›, h.symm⟩
  · exact Or.inr ⟨Bool.eq_false_iff.mpr ‹_›, h.symm⟩

theorem cancelEvent_cases (h : s.cancelEvent j refused = some t) : ∃ cb, s.running[j]? = some cb ∧
    ((refused = true ∧ t = { s with running := s.running.eraseIdx j }) ∨
    ∃ ok events, refused = false ∧ s.events.cancelEvent cb.fd cb.event = .ok (ok, events) ∧
      t = { s with running := s.running.eraseIdx j, events }) := by
  unfold cancelEvent at h
  obtain ⟨cb, hcb, h⟩ := Option.bind_eq_some_iff.mp h
  refine ⟨cb, hcb, ?_⟩
  dsimp only at h
  split at h
  · exact Or.inl ⟨‹_›, (Option.some.inj h).symm⟩
  · obtain ⟨⟨ok, events⟩, hr, rfl⟩ := Option.map_eq_some_iff.mp h
    exact Or.inr ⟨ok, events, Bool.eq_false_iff.mpr ‹_›, Descriptors.toOption_eq_some.mp hr, rfl⟩

end Hook
end MyHttp

import MyHttp.Theorems.Hook.Steps
import MyHttp.Lib.Run

/-! Calls of `do_io` and the `close` of their descriptor. Nothing tells a call that is woken by `close` that its
    descriptor is gone, so it stays away from the number only when its timeout has struck as well. -/

namespace MyHttp
namespace Hook

open IOManager Lib.Run

variable {m n : Nat} {s t : Hook m n} {f g : Fin m} {fd now : Nat} {a : Act m n} {task : Task}
  {files : Nat → Option File}

/-- The system call on the descriptor comes next. -/
def Task.issues (fd : Nat) : Task → Bool
  | .direct fd' _ _ => fd' = fd
  | .io c => c.pc = .syscall && c.fd = fd
  | _ => false

/-- A call whose descriptor has been closed since it began makes no system call, and returns nothing but `-1`. -/
def Task.Apart : Task → Prop
  | .direct _ _ closed => closed = false
  | .io c => c.closed = true → c.pc ≠ .syscall
  | .returned k closed => closed = true → k = none
  | _ => True

/-- No descriptor is closed while a call is about to use it, and a call that is woken on a closed descriptor finds
    `cancelled` set. -/
def Noticed (s : Hook m n) : Act m n → Prop
  | .closeFd f =>
    match s.tasks f with
    | .closing fd => ∀ g, (s.tasks g).issues fd = false
    | _ => True
  | .check f =>
    match s.tasks f with
    | .io c => c.closed = true → s.cancelled c.info = true
    | _ => True
  | _ => True

instance (s : Hook m n) (a : Act m n) : Decidable (Noticed s a) := by
  induction a using Act.casesOn <;> dsimp only [Noticed]
  case closeFd f => induction s.tasks f using Task.casesOn <;> infer_instance
  case check f => induction s.tasks f using Task.casesOn <;> infer_instance
  all_goals infer_instance

theorem Task.Apart.close (h : task.Apart) (hi : task.issues fd = false) : (task.close fd).Apart := by
  cases task with
  | direct fd' accept closed =>
    have hne : ¬fd' = fd := of_decide_eq_false hi
    obtain rfl : closed = false := h
    exact decide_eq_false hne
  | io c =>
    intro hclosed hpc
    rcases Bool.or_eq_true_iff.mp hclosed with hc | hc
    · exact h hc hpc
    · have hissues : (Task.io c).issues fd = true := Bool.and_eq_true_iff.mpr ⟨decide_eq_true hpc, hc⟩
      rw [hi] at hissues
      cases hissues
  | idle | accepted | closing => exact h
  | returned k closed => exact h

/-- One task is replaced. -/
theorem apart_setTask (h : ∀ g, (s.tasks g).Apart) (ht : task.Apart) (g : Fin m) :
    ((s.setTask f task).tasks g).Apart := by
  rcases setTask_cases s f task g with hg | ⟨-, hg⟩
  · rw [hg]
    exact h g
  · rw [hg]
    exact ht

theorem apart_finish {r : SysResult} {closed : Bool} (h : ∀ g, (s.tasks g).Apart) (hclosed : closed = false)
    (g : Fin m) : ((s.finish f closed r).tasks g).Apart := by
  rcases finish_cases s f closed r with ⟨k, heq⟩ | ⟨fd, fds, heq⟩
  · rw [heq, hclosed]
    refine apart_setTask h ?_ g
    nofun
  · rw [heq]
    refine apart_setTask h ?_ g
    trivial

theorem apart_doIo {event : Event} {accept : Bool} (h : ∀ g, (s.tasks g).Apart) (g : Fin m) :
    ((s.doIo f fd event accept).tasks g).Apart := by
  rcases doIo_cases s f fd event accept with heq | heq | ⟨timeout, heq⟩
  · rw [heq]
    refine apart_setTask h ?_ g
    rfl
  · rw [heq]
    refine apart_setTask h ?_ g
    nofun
  · rw [heq]
    refine apart_setTask h ?_ g
    nofun

theorem apart_issue {r : SysResult} (h : ∀ g, (s.tasks g).Apart) (hs : s.issue f r = some t) (g : Fin m) :
    (t.tasks g).Apart := by
  have hf := h f
  rcases issue_cases hs with ⟨fd, accept, closed, htask, rfl⟩ | ⟨c, htask, hpc, rfl | rfl | rfl⟩
  · rw [htask] at hf
    exact apart_finish h hf g
  · exact h g
  · refine apart_setTask h ?_ g
    nofun
  · rw [htask] at hf
    have hclosed : c.closed = false := Bool.eq_false_iff.mpr fun hc => hf hc hpc
    exact apart_finish (s := s.drop c.info) h hclosed g

theorem apart_check (h : ∀ g, (s.tasks g).Apart) (hok : Noticed s (.check f)) (hs : s.check f = some t) (g : Fin m) :
    (t.tasks g).Apart := by
  obtain ⟨c, htask, -, ⟨-, rfl⟩ | ⟨hcancelled, rfl⟩⟩ := check_cases hs
  · refine apart_setTask h ?_ g
    exact fun _ => rfl
  · refine apart_setTask h ?_ g
    intro hclosed
    unfold Noticed at hok
    dsimp only at hok
    rw [htask] at hok
    have hset := hok hclosed
    rw [hcancelled] at hset
    cases hset

theorem apart_closeFd (h : ∀ g, (s.tasks g).Apart) (hok : Noticed s (.closeFd f)) (hs : s.closeFd f = some t)
    (g : Fin m) : (t.tasks g).Apart := by
  obtain ⟨fd, htask, rfl⟩ := closeFd_cases hs
  unfold Noticed at hok
  dsimp only at hok ⊢
  rw [htask] at hok
  by_cases hg : g = f
  · rw [hg, Function.update_self]
    nofun
  · rw [Function.update_of_ne hg]
    exact (h g).close (hok g)

theorem apart_step (h : ∀ g, (s.tasks g).Apart) (hok : Noticed s a) (hs : s.step a = some t) (g : Fin m) :
    (t.tasks g).Apart := by
  cases a with
  | doIo f fd event accept =>
    obtain ⟨-, heq⟩ := Option.ite_none_right_eq_some.mp hs
    obtain rfl := Option.some.inj heq
    exact apart_doIo h g
  | issue f r => exact apart_issue h hs g
  | arm f addr now =>
    obtain ⟨c, -, hpc, ⟨-, -, rfl⟩ | ⟨-, rfl⟩⟩ := arm_cases hs
    · refine apart_setTask h ?_ g
      nofun
    · refine apart_setTask h ?_ g
      nofun
  | addEvent f refused =>
    obtain ⟨c, -, events, -, -, -, ⟨-, rfl⟩ | ⟨timers, -, -, rfl⟩⟩ := addEvent_cases hs
    · refine apart_setTask h ?_ g
      nofun
    · refine apart_setTask h ?_ g
      exact fun _ => rfl
  | yield f =>
    obtain ⟨c, -, -, rfl⟩ := yield_cases hs
    refine apart_setTask h ?_ g
    nofun
  | resume f =>
    obtain ⟨c, -, -, rfl⟩ := resume_cases hs
    refine apart_setTask h ?_ g
    nofun
  | cancelTimer f =>
    obtain ⟨c, timers, -, -, -, rfl⟩ := cancelTimer_cases hs
    refine apart_setTask h ?_ g
    nofun
  | check f => exact apart_check h hok hs g
  | context f =>
    obtain ⟨fd, -, rfl⟩ := context_cases hs
    refine apart_setTask h ?_ g
    nofun
  | close f fd refused =>
    obtain ⟨-, rfl | ⟨ok, events, -, rfl⟩⟩ := close_cases hs
    · refine apart_setTask h ?_ g
      trivial
    · refine apart_setTask h ?_ g
      trivial
  | closeFd f => exact apart_closeFd h hok hs g
  | onFd a =>
    obtain ⟨fds, rfl⟩ := onFd_cases hs
    exact h g
  | expire probe now =>
    obtain ⟨-, rfl⟩ := expire_cases hs
    exact h g
  | fire j =>
    obtain ⟨cb, -, ⟨-, rfl⟩ | ⟨-, rfl⟩⟩ := fire_cases hs
    · exact h g
    · exact h g
  | cancelEvent j refused =>
    obtain ⟨cb, -, ⟨-, rfl⟩ | ⟨ok, events, -, -, rfl⟩⟩ := cancelEvent_cases hs
    · exact h g
    · exact h g
  | wait w reports =>
    obtain ⟨events, -, rfl⟩ := Option.map_eq_some_iff.mp hs
    exact h g
  | dispatch w =>
    obtain ⟨events, -, rfl⟩ := Option.map_eq_some_iff.mp hs
    exact h g

/-- A step that does not meet the condition leaves a call that goes on with a closed descriptor. -/
theorem noticed_of_apart (h : ∀ g, (t.tasks g).Apart) (hs : s.step a = some t) : Noticed s a := by
  cases a with
  | check f =>
    obtain ⟨c, htask, -, hcases⟩ := check_cases hs
    unfold Noticed
    dsimp only
    rw [htask]
    intro hclosed
    rcases hcases with ⟨hcancelled, -⟩ | ⟨-, rfl⟩
    · exact hcancelled
    · have hf := h f
      rw [setTask_self] at hf
      exact (hf hclosed rfl).elim
  | closeFd f =>
    obtain ⟨fd, htask, rfl⟩ := closeFd_cases hs
    unfold Noticed
    dsimp only
    rw [htask]
    intro g
    by_cases hgf : g = f
    · rw [hgf, htask]
      rfl
    · have hg := h g
      dsimp only at hg
      rw [Function.update_of_ne hgf] at hg
      cases htg : s.tasks g with
      | direct fd' accept closed =>
        rw [htg] at hg
        have hclosed : (closed || decide (fd' = fd)) = false := hg
        exact (Bool.or_eq_false_iff.mp hclosed).2
      | io c =>
        rw [htg] at hg
        refine Bool.eq_false_iff.mpr fun hissues => ?_
        obtain ⟨hpc, hfd⟩ := Bool.and_eq_true_iff.mp hissues
        exact hg (Bool.or_eq_true_iff.mpr (Or.inr hfd)) (of_decide_eq_true hpc)
      | idle | accepted | closing | returned => rfl
  | _ => trivial

/-- In every run that meets the condition, no call that began before its descriptor was closed is about to make its
    system call, and those that return have `-1`; this stays so exactly with a step that meets it as well. -/
theorem closed_calls_apart (h : Reach step Noticed (init files now : Hook m n) s) :
    (∀ f, (s.tasks f).Apart) ∧ ∀ a t, s.step a = some t → ((∀ f, (t.tasks f).Apart) ↔ s.Noticed a) := by
  have happart : ∀ f, (s.tasks f).Apart := by
    refine h.invariant (P := fun s => ∀ g, (s.tasks g).Apart) ?_ ?_
    · exact fun _ => trivial
    · exact fun _ _ _ hP hok hs g => apart_step hP hok hs g
  exact ⟨happart, fun a t hs => ⟨fun ht => noticed_of_apart ht hs, fun hok f => apart_step happart hok hs f⟩⟩

/-- A call whose timeout has struck before the close. -/
theorem closed_calls_apart_timeout :
    let s := (exec step Noticed (init (fun _ => none) 0 : Hook 2 1) [.onFd (.socket (some (3, 2))),
      .onFd (.setsockopt 3 .recv 1 0), .doIo 0 3 .read false, .issue 0 .eagain, .arm 0 16 1000, .addEvent 0 false,
      .yield 0, .expire 24 3000, .fire 0, .close 1 3 false, .closeFd 1, .cancelEvent 0 false, .resume 0,
      .cancelTimer 0, .check 0]).get (by decide +kernel)
    s.tasks 0 = .returned none true ∧ (s.tasks 0).Apart := by
  intro s
  have hreach : Reach step Noticed (init (fun _ => none) 0 : Hook 2 1) s := reach_of_exec (Option.some_get _).symm
  exact ⟨by decide +kernel, (closed_calls_apart hreach).1 0⟩

/-- A call that is woken by `close` reads from the connection that has got the number since. -/
theorem reads_recycled : ¬∀ (m n : Nat) (files : Nat → Option File) (now : Nat) (s : Hook m n),
    Reach step (fun _ _ => True) (init files now) s → ∀ f, (s.tasks f).Apart := by
  intro h
  let s := (exec step (fun _ _ => True) (init (fun _ => none) 0 : Hook 2 1) [.onFd (.socket (some (3, 2))),
    .doIo 0 3 .read false, .issue 0 .eagain, .arm 0 16 1000, .addEvent 0 false, .yield 0, .close 1 3 false, .closeFd 1,
    .onFd (.socket (some (3, 2))), .resume 0, .cancelTimer 0, .check 0, .issue 0 (.done 5)]).get (by decide +kernel)
  have hread : s.tasks 0 = .returned (some 5) true := by decide +kernel
  have hs := h 2 1 _ 0 s (reach_of_exec (Option.some_get _).symm) 0
  rw [hread] at hs
  cases hs rfl

end Hook
end MyHttp

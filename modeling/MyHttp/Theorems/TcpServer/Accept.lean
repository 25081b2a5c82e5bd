import MyHttp.TcpServer.Accept
import MyHttp.Lib.Run
import Mathlib.Algebra.Order.BigOperators.Group.List
import Mathlib.Algebra.Order.Ring.Nat

/-! A client that is accepted is handed to a worker once. After `stop` the server comes to its end in boundedly many steps if
    it is not started again; and once the closure of `stop` has run, nothing is accepted any more, started or not. -/

namespace MyHttp
namespace TcpServer
namespace Running

open Lib.Run

variable {s t : Running} {a : Act} {i j : Nat} {l : AcceptLoop} {r : AcceptResult} {task : AcceptTask} {rest : List Nat}

/-! ### Lists with one element changed -/

theorem sum_modify {α : Type} {f : α → α} {g : α → Nat} {l : List α} {x : α} (h : l[i]? = some x) :
    ((l.modify i f).map g).sum + g x = (l.map g).sum + g (f x) := by
  obtain ⟨hi, hx⟩ := List.getElem?_eq_some_iff.mp h
  obtain ⟨l₁, y, l₂, rfl, rfl, hmodify⟩ := List.exists_of_modify f hi
  rw [hmodify]
  have hy : y = x := by simpa using hx
  subst hy
  simp only [List.map_append, List.map_cons, List.sum_append, List.sum_cons]
  omega

theorem sum_eraseIdx {α : Type} {g : α → Nat} {l : List α} {x : α} (h : l[i]? = some x) :
    ((l.eraseIdx i).map g).sum + g x = (l.map g).sum := by
  obtain ⟨hi, hx⟩ := List.getElem?_eq_some_iff.mp h
  have hsplit := List.take_append_drop i l
  rw [List.drop_eq_getElem_cons hi, hx] at hsplit
  rw [List.eraseIdx_eq_take_drop_succ]
  conv_rhs => rw [← hsplit]
  simp only [List.map_append, List.map_cons, List.sum_append, List.sum_cons]
  omega

theorem perm_filterMap_modify {α β : Type} {f : α → α} {g : α → Option β} {l : List α} {x : α} (h : l[i]? = some x) :
    ((g x).toList ++ (l.modify i f).filterMap g).Perm ((g (f x)).toList ++ l.filterMap g) := by
  obtain ⟨hi, hx⟩ := List.getElem?_eq_some_iff.mp h
  obtain ⟨l₁, y, l₂, rfl, rfl, hmodify⟩ := List.exists_of_modify f hi
  rw [hmodify]
  have hy : y = x := by simpa using hx
  subst hy
  have hcons : ∀ z, (z :: l₂).filterMap g = (g z).toList ++ l₂.filterMap g := by
    intro z
    rw [List.filterMap_cons]
    cases g z <;> rfl
  rw [List.filterMap_append, List.filterMap_append, hcons, hcons]
  refine (List.perm_append_comm_assoc _ _ _).trans ?_
  refine ((List.perm_append_comm_assoc _ _ _).append_left _).trans ?_
  exact List.perm_append_comm_assoc _ _ _

/-! ### What every step keeps -/

/-- The client of a loop that has still to hand it on. -/
def LoopPc.inHand : LoopPc → Option Nat
  | .client c => some c
  | _ => none

def inHand (s : Running) : List Nat := s.loops.filterMap fun l => LoopPc.inHand l.pc

/-- No loop has run or is to run. -/
def Unserved (s : Running) : Prop := s.loops = [] ∧ ∀ sock, AcceptTask.startAccept sock ∉ s.tasks

structure Sound (s : Running) : Prop where
  kept : (s.inHand ++ s.handled).Perm s.accepted
  listed : ∀ x, s.isOpen x = true → x ∈ s.socks
  closing : ∀ rest ∈ s.closers, ∀ x, s.isOpen x = true → x ∈ rest
  reset : ∀ x, s.isOpen x = false → s.backlog x = []
  stopped : s.isStop = true →
    AcceptTask.closeAll ∈ s.tasks ∨ s.closers ≠ [] ∨ (∀ x, s.isOpen x = false) ∨ s.Unserved

theorem inHand_goto (h : s.loops[i]? = some l) (pc : LoopPc) :
    ((LoopPc.inHand l.pc).toList ++ (s.goto i pc).inHand).Perm ((LoopPc.inHand pc).toList ++ s.inHand) :=
  perm_filterMap_modify (f := fun l => { l with pc }) (g := fun l => LoopPc.inHand l.pc) h

/-- The client that a loop comes from or goes to is handed on or accepted in the same step. -/
theorem kept_goto (h : s.loops[i]? = some l) (hkept : (s.inHand ++ s.handled).Perm s.accepted) {pc : LoopPc}
    {handled accepted : List Nat} (hhandled : handled = s.handled ++ (LoopPc.inHand l.pc).toList)
    (haccepted : accepted = s.accepted ++ (LoopPc.inHand pc).toList) : ((s.goto i pc).inHand ++ handled).Perm accepted := by
  subst hhandled haccepted
  have hmoved := (inHand_goto h pc).append_right s.handled
  have hleft : ((s.goto i pc).inHand ++ (s.handled ++ (LoopPc.inHand l.pc).toList)).Perm
      ((LoopPc.inHand l.pc).toList ++ (s.goto i pc).inHand ++ s.handled) := by
    rw [← List.append_assoc, List.append_assoc _ _ s.handled]
    exact List.perm_append_comm
  have hright : ((LoopPc.inHand pc).toList ++ s.inHand ++ s.handled).Perm (s.accepted ++ (LoopPc.inHand pc).toList) := by
    rw [List.append_assoc]
    exact (hkept.append_left _).trans List.perm_append_comm
  exact hleft.trans (hmoved.trans hright)

theorem not_unserved (h : s.loops[i]? = some l) : ¬s.Unserved :=
  fun hun => List.ne_nil_of_mem (List.mem_of_getElem? h) hun.1

/-- A loop that goes on keeps what is true of the sockets. -/
theorem Sound.goto (h : s.Sound) (hl : s.loops[i]? = some l) {pc : LoopPc}
    {backlog : Nat → List Nat} {handled accepted : List Nat} (hbacklog : ∀ x, s.backlog x = [] → backlog x = [])
    (hhandled : handled = s.handled ++ (LoopPc.inHand l.pc).toList)
    (haccepted : accepted = s.accepted ++ (LoopPc.inHand pc).toList) :
    Sound { s.goto i pc with backlog, handled, accepted } where
  kept := kept_goto hl h.kept hhandled haccepted
  listed := h.listed
  closing := h.closing
  reset x hx := hbacklog x (h.reset x hx)
  stopped hstop := by
    rcases h.stopped hstop with htask | hcloser | hclosed | hun
    · exact .inl htask
    · exact .inr (.inl hcloser)
    · exact .inr (.inr (.inl hclosed))
    · exact absurd hun (not_unserved hl)

theorem Sound.start (h : s.Sound) : s.start.Sound := by
  unfold Running.start
  split
  · exact ⟨h.kept, h.listed, h.closing, h.reset, nofun⟩
  · exact h

theorem Sound.stop (h : s.Sound) : s.stop.Sound :=
  ⟨h.kept, h.listed, h.closing, h.reset, fun _ => .inl (List.mem_append_right _ List.mem_cons_self)⟩

theorem Sound.begin (h : s.Sound) (htask : s.tasks[j]? = some task) : (s.begin j task).Sound := by
  have hmem := List.mem_of_getElem? htask
  cases task with
  | startAccept sock =>
    refine ⟨?_, h.listed, h.closing, h.reset, fun hstop => ?_⟩
    · have hsame : Running.inHand (s.begin j (.startAccept sock)) = s.inHand := by
        simp [Running.inHand, Running.begin, LoopPc.inHand]
      rw [hsame]
      exact h.kept
    · rcases h.stopped hstop with hclose | hcloser | hclosed | hun
      · left
        obtain ⟨k, hk⟩ := List.mem_iff_getElem?.mp hclose
        refine List.mem_eraseIdx_iff_getElem?.mpr ⟨k, fun heq => ?_, hk⟩
        rw [heq, htask] at hk
        cases hk
      · exact .inr (.inl hcloser)
      · exact .inr (.inr (.inl hclosed))
      · exact absurd hmem (hun.2 sock)
  | closeAll =>
    refine ⟨h.kept, h.listed, fun rest hrest x hx => ?_, h.reset, fun _ => .inr (.inl (List.append_ne_nil_of_right_ne_nil _ nofun))⟩
    rcases List.mem_append.mp hrest with hrest | hrest
    · exact h.closing rest hrest x hx
    · rw [List.mem_singleton.mp hrest]
      exact h.listed x hx

theorem Sound.loop (h : s.Sound) (hl : s.loops[i]? = some l) (hs : s.loop i l.pc = some t) : t.Sound := by
  unfold Running.loop at hs
  cases hpc : l.pc <;> simp only [hpc] at hs <;> cases hs
  case check =>
    have hnone : ∀ stop : Bool, LoopPc.inHand (if stop then .finished else .accept) = none := by
      intro stop
      cases stop <;> rfl
    refine h.goto hl (fun _ => id) ?_ ?_
    · rw [hpc]
      exact (List.append_nil _).symm
    · rw [hnone]
      exact (List.append_nil _).symm
  case client c =>
    refine h.goto hl (fun _ => id) ?_ (List.append_nil _).symm
    rw [hpc]
    rfl

theorem backlog_update {sock c : Nat} (hcons : s.backlog sock = c :: rest) (x : Nat) (hx : s.backlog x = []) :
    Function.update s.backlog sock rest x = [] := by
  have hne : x ≠ sock := fun heq => by rw [heq, hcons] at hx; cases hx
  rw [Function.update_of_ne hne, hx]

theorem Sound.accept (h : s.Sound) (hl : s.loops[i]? = some l) (hs : s.accept i l r = some t) : t.Sound := by
  obtain ⟨hpc, hs⟩ := Option.ite_none_right_eq_some.mp hs
  have hin : LoopPc.inHand l.pc = none := by rw [hpc]; rfl
  have hhandled : s.handled = s.handled ++ (LoopPc.inHand l.pc).toList := by rw [hin]; exact (List.append_nil _).symm
  cases hback : s.backlog l.sock with
  | nil =>
    cases r <;> simp only [hback] at hs <;> cases hs
    exact h.goto hl (fun _ => id) hhandled (List.append_nil _).symm
  | cons c rest =>
    cases r <;> simp only [hback] at hs <;> cases hs
    · exact h.goto hl (backlog_update hback) hhandled rfl
    · exact h.goto hl (backlog_update hback) hhandled (List.append_nil _).symm
    · exact h.goto hl (fun _ => id) hhandled (List.append_nil _).symm

theorem isOpen_of_update {sock x : Nat} (h : Function.update s.isOpen sock false x = true) : x ≠ sock ∧ s.isOpen x = true := by
  have hne : x ≠ sock := by
    rintro rfl
    rw [Function.update_self] at h
    cases h
  rw [Function.update_of_ne hne] at h
  exact ⟨hne, h⟩

theorem Sound.close (h : s.Sound) (hrest : s.closers[j]? = some rest) : (s.close j rest).Sound := by
  have hmem := List.mem_of_getElem? hrest
  cases rest with
  | nil =>
    have hclosed : ∀ x, s.isOpen x = false := by
      intro x
      cases hopen : s.isOpen x with
      | false => rfl
      | true => exact absurd (h.closing [] hmem x hopen) List.not_mem_nil
    exact ⟨h.kept, fun x hx => absurd ((hclosed x).symm.trans hx) Bool.noConfusion,
      fun rest hrest => h.closing rest (List.mem_of_mem_eraseIdx hrest), h.reset, fun _ => .inr (.inr (.inl hclosed))⟩
  | cons sock rest =>
    refine ⟨h.kept, fun x hx => h.listed x (isOpen_of_update hx).2, fun rest' hrest' x hx => ?_, fun x hx => ?_, fun _ => ?_⟩
    · obtain ⟨hne, hopen⟩ := isOpen_of_update hx
      rcases List.mem_or_eq_of_mem_set hrest' with hrest' | rfl
      · exact h.closing rest' hrest' x hopen
      · exact (List.mem_cons.mp (h.closing _ hmem x hopen)).resolve_left hne
    · have hupdate : Function.update s.isOpen sock false x = false := hx
      show Function.update s.backlog sock [] x = []
      by_cases heq : x = sock
      · rw [heq, Function.update_self]
      · rw [Function.update_of_ne heq] at hupdate ⊢
        exact h.reset x hupdate
    · refine .inr (.inl fun hnil => ?_)
      have hlen : (s.closers.set j rest).length = s.closers.length := List.length_set
      have hpos := List.length_pos_of_mem hmem
      have hzero : s.closers.set j rest = [] := hnil
      rw [hzero] at hlen
      exact absurd hlen (Nat.ne_of_lt hpos)

theorem Sound.step (h : s.Sound) (hs : s.step a = some t) : t.Sound := by
  cases a with
  | start =>
    cases hs
    exact h.start
  | stop =>
    cases hs
    exact h.stop
  | begin j =>
    obtain ⟨task, htask, rfl⟩ := Option.map_eq_some_iff.mp hs
    exact h.begin htask
  | loop i =>
    obtain ⟨l, hl, hs⟩ := Option.bind_eq_some_iff.mp hs
    exact h.loop hl hs
  | accept i r =>
    obtain ⟨l, hl, hs⟩ := Option.bind_eq_some_iff.mp hs
    exact h.accept hl hs
  | close j =>
    obtain ⟨rest, hrest, rfl⟩ := Option.map_eq_some_iff.mp hs
    exact h.close hrest
  | arrive sock c =>
    obtain ⟨hopen, heq⟩ := Option.ite_none_right_eq_some.mp hs
    cases heq
    refine ⟨h.kept, h.listed, h.closing, fun x hx => ?_, h.stopped⟩
    have hne : x ≠ sock := fun heq => by rw [heq, hopen] at hx; cases hx
    exact (Function.update_of_ne hne _ _).trans (h.reset x hx)

theorem sound_init (socks : List Nat) : (init socks).Sound :=
  ⟨.nil, fun _ hx => of_decide_eq_true hx, nofun, fun _ _ => rfl, fun _ => .inr (.inr (.inr ⟨rfl, nofun⟩))⟩

theorem sound_of_reach {socks : List Nat} (h : Reach step (fun _ _ => True) (init socks) s) : s.Sound :=
  h.invariant (sound_init socks) fun _ _ _ hsound _ hs => hsound.step hs

/-! ### The end after `stop` -/

/-- The server is not started or stopped, and no connection arrives. -/
def Quiet (_ : Running) : Act → Prop
  | .start | .stop | .arrive _ _ => False
  | .begin _ | .loop _ | .accept _ _ | .close _ => True

instance : ∀ (s : Running) (a : Act), Decidable (s.Quiet a)
  | _, .start | _, .stop | _, .arrive _ _ => isFalse id
  | _, .begin _ | _, .loop _ | _, .accept _ _ | _, .close _ => isTrue trivial

/-- A step that comes without a client: `accept` is sure to come back on a socket that is closed. -/
def Sure (s : Running) : Act → Prop
  | .start | .stop | .arrive _ _ => False
  | .begin _ | .loop _ | .close _ => True
  | .accept i r => r = .error ∧ ∀ l, s.loops[i]? = some l → s.isOpen l.sock = false

structure Over (s : Running) : Prop where
  tasks : s.tasks = []
  closers : s.closers = []
  loops : ∀ l ∈ s.loops, l.pc = .finished

def LoopPc.work : LoopPc → Nat
  | .check => 1
  | .accept => 3
  | .client _ => 2
  | .finished => 0

def AcceptTask.work (n : Nat) : AcceptTask → Nat
  | .startAccept _ => 2
  | .closeAll => n + 2

/-- What is still to do once `m_isStop` is set. -/
def work (s : Running) : Nat :=
  (s.tasks.map (AcceptTask.work s.socks.length)).sum + (s.loops.map fun l => LoopPc.work l.pc).sum +
    (s.closers.map fun rest => rest.length + 1).sum

theorem work_goto (h : s.loops[i]? = some l) (pc : LoopPc) (backlog : Nat → List Nat) (handled accepted : List Nat) :
    work { s.goto i pc with backlog, handled, accepted } + LoopPc.work l.pc = s.work + LoopPc.work pc := by
  have hsum := sum_modify (f := fun l => { l with pc }) (g := fun l : AcceptLoop => LoopPc.work l.pc) h
  unfold work Running.goto
  simp only at hsum ⊢
  omega

theorem work_begin (h : s.tasks[j]? = some task) : (s.begin j task).work < s.work := by
  have hsum := sum_eraseIdx (g := AcceptTask.work s.socks.length) h
  cases task with
  | startAccept sock =>
    simp only [work, Running.begin, List.map_append, List.sum_append, List.map_cons, List.map_nil, List.sum_cons, List.sum_nil,
      AcceptTask.work, LoopPc.work] at hsum ⊢
    omega
  | closeAll =>
    simp only [work, Running.begin, List.map_append, List.sum_append, List.map_cons, List.map_nil, List.sum_cons, List.sum_nil,
      AcceptTask.work] at hsum ⊢
    omega

theorem sum_set {g : List Nat → Nat} {ls : List (List Nat)} (h : ls[j]? = some rest) (new : List Nat) :
    ((ls.set j new).map g).sum + g rest = (ls.map g).sum + g new := by
  have hset : ls.modify j (fun _ => new) = ls.set j new := List.modify_eq_set _ _ _
  rw [← hset]
  exact sum_modify h

theorem work_close (h : s.closers[j]? = some rest) : (s.close j rest).work < s.work := by
  cases rest with
  | nil =>
    have hsum := sum_eraseIdx (g := fun rest : List Nat => rest.length + 1) h
    have htasks : (s.tasks.map (AcceptTask.work 0)).sum ≤ (s.tasks.map (AcceptTask.work s.socks.length)).sum := by
      refine List.sum_le_sum fun task _ => ?_
      cases task with
      | startAccept sock => exact Nat.le_refl _
      | closeAll => exact Nat.add_le_add_right (Nat.zero_le _) 2
    simp only [work, Running.close, List.length_nil] at hsum ⊢
    omega
  | cons sock rest =>
    have hsum := sum_set (g := fun rest => rest.length + 1) h rest
    simp only [work, Running.close, List.length_cons] at hsum ⊢
    omega

/-- Every step of a stopped server that is left alone brings it nearer to its end. -/
theorem work_step (hstop : s.isStop = true) (hquiet : s.Quiet a) (hs : s.step a = some t) :
    t.isStop = true ∧ t.work < s.work := by
  cases a with
  | start => cases hquiet
  | stop => cases hquiet
  | arrive sock c => cases hquiet
  | begin j =>
    obtain ⟨task, htask, rfl⟩ := Option.map_eq_some_iff.mp hs
    refine ⟨?_, work_begin htask⟩
    cases task <;> exact hstop
  | close j =>
    obtain ⟨rest, hrest, rfl⟩ := Option.map_eq_some_iff.mp hs
    refine ⟨?_, work_close hrest⟩
    cases rest <;> exact hstop
  | loop i =>
    obtain ⟨l, hl, hs⟩ := Option.bind_eq_some_iff.mp hs
    rcases hpc : l.pc with _ | _ | c | _ <;> simp only [Running.loop, hpc] at hs <;> cases hs
    · rw [hstop, if_pos rfl]
      have hwork := work_goto hl .finished s.backlog s.handled s.accepted
      rw [hpc] at hwork
      exact ⟨hstop, Nat.lt_of_succ_le (Nat.le_of_eq hwork)⟩
    · have hwork := work_goto hl .check s.backlog (s.handled ++ [c]) s.accepted
      rw [hpc] at hwork
      exact ⟨hstop, Nat.lt_of_succ_le (Nat.le_of_eq (Nat.succ.inj hwork))⟩
  | accept i r =>
    obtain ⟨l, hl, hs⟩ := Option.bind_eq_some_iff.mp hs
    obtain ⟨hpc, hs⟩ := Option.ite_none_right_eq_some.mp hs
    have hless : ∀ {pc backlog handled accepted}, LoopPc.work pc < 3 →
        work { s.goto i pc with backlog, handled, accepted } < s.work := by
      intro pc backlog handled accepted hlt
      have hwork := work_goto hl pc backlog handled accepted
      rw [hpc] at hwork
      have hthree : LoopPc.work .accept = 3 := rfl
      omega
    cases r <;> cases hback : s.backlog l.sock <;> simp only [hback] at hs <;> cases hs <;>
      exact ⟨hstop, hless (Nat.le_of_ble_eq_true rfl)⟩

/-- A stopped server that is not at its end has a step for which it needs nobody. -/
theorem Sound.progress (h : s.Sound) (hstop : s.isStop = true) (hover : ¬s.Over) : ∃ a t, s.Sure a ∧ s.step a = some t := by
  by_cases htasks : s.tasks = []
  case neg =>
    obtain ⟨task, tasks, htasks⟩ := List.exists_cons_of_ne_nil htasks
    exact ⟨.begin 0, _, trivial, by simp only [Running.step, htasks]; rfl⟩
  by_cases hclosers : s.closers = []
  case neg =>
    obtain ⟨rest, closers, hclosers⟩ := List.exists_cons_of_ne_nil hclosers
    exact ⟨.close 0, _, trivial, by simp only [Running.step, hclosers]; rfl⟩
  obtain ⟨l, hmem, hl⟩ : ∃ l ∈ s.loops, l.pc ≠ .finished := by
    by_contra hnone
    push Not at hnone
    exact hover ⟨htasks, hclosers, hnone⟩
  obtain ⟨i, hi⟩ := List.mem_iff_getElem?.mp hmem
  cases hpc : l.pc with
  | check => exact ⟨.loop i, _, trivial, by simp only [Running.step, hi, Option.bind_some, Running.loop, hpc]; rfl⟩
  | client c => exact ⟨.loop i, _, trivial, by simp only [Running.step, hi, Option.bind_some, Running.loop, hpc]; rfl⟩
  | finished => exact absurd hpc hl
  | accept =>
    have hclosed : ∀ x, s.isOpen x = false := by
      rcases h.stopped hstop with htask | hcloser | hclosed | hun
      · rw [htasks] at htask
        cases htask
      · exact absurd hclosers hcloser
      · exact hclosed
      · exact absurd hun (not_unserved hi)
    refine ⟨.accept i .error, s.goto i .check, ⟨rfl, fun _ _ => hclosed _⟩, ?_⟩
    simp only [Running.step, hi, Option.bind_some, Running.accept, hpc, if_pos]

/-! ### After the closure of `stop` -/

/-- Without a socket nothing is accepted, and no socket comes back. -/
theorem Sound.accepted_step (h : s.Sound) (hnone : s.socks = []) (hs : s.step a = some t) :
    t.socks = [] ∧ t.accepted = s.accepted := by
  have hclosed : ∀ x, s.isOpen x = false := by
    intro x
    cases hopen : s.isOpen x with
    | false => rfl
    | true =>
      have hmem := h.listed x hopen
      rw [hnone] at hmem
      cases hmem
  cases a with
  | start =>
    cases hs
    unfold Running.start
    split <;> exact ⟨hnone, rfl⟩
  | stop =>
    cases hs
    exact ⟨hnone, rfl⟩
  | begin j =>
    obtain ⟨task, htask, rfl⟩ := Option.map_eq_some_iff.mp hs
    cases task <;> exact ⟨hnone, rfl⟩
  | close j =>
    obtain ⟨rest, hrest, rfl⟩ := Option.map_eq_some_iff.mp hs
    cases rest
    · exact ⟨rfl, rfl⟩
    · exact ⟨hnone, rfl⟩
  | loop i =>
    obtain ⟨l, hl, hs⟩ := Option.bind_eq_some_iff.mp hs
    cases hpc : l.pc <;> simp only [Running.loop, hpc] at hs <;> cases hs <;> exact ⟨hnone, rfl⟩
  | accept i r =>
    obtain ⟨l, hl, hs⟩ := Option.bind_eq_some_iff.mp hs
    obtain ⟨hpc, hs⟩ := Option.ite_none_right_eq_some.mp hs
    have hback := h.reset l.sock (hclosed l.sock)
    cases r <;> simp only [hback] at hs <;> cases hs
    exact ⟨hnone, rfl⟩
  | arrive sock c =>
    obtain ⟨hopen, -⟩ := Option.ite_none_right_eq_some.mp hs
    exact absurd ((hclosed sock).symm.trans hopen) Bool.noConfusion

theorem Sound.accepted_reach (h : s.Sound) (hnone : s.socks = []) (ht : Reach Running.step (fun _ _ => True) s t) :
    t.accepted = s.accepted := by
  have hkept := ht.invariant (P := fun t => t.Sound ∧ t.socks = [] ∧ t.accepted = s.accepted) ⟨h, hnone, rfl⟩
    fun u a v hu _ hs =>
      have hstep := hu.1.accepted_step hu.2.1 hs
      ⟨hu.1.step hs, hstep.1, hstep.2.trans hu.2.2⟩
  exact hkept.2.2

theorem Over.closed (h : s.Over) (hsound : s.Sound) (hstop : s.isStop = true) : (∀ x, s.isOpen x = false) ∨ s.loops = [] := by
  rcases hsound.stopped hstop with htask | hcloser | hclosed | hun
  · rw [h.tasks] at htask
    cases htask
  · exact absurd h.closers hcloser
  · exact .inl hclosed
  · exact .inr hun.1

theorem Over.handled (h : s.Over) (hsound : s.Sound) : s.handled.Perm s.accepted := by
  have hnone : s.inHand = [] := by
    refine List.filterMap_eq_nil_iff.mpr fun l hl => ?_
    rw [h.loops l hl]
    rfl
  simpa [hnone] using hsound.kept

end Running
end TcpServer
end MyHttp

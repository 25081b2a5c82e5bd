import MyHttp.Theorems.Hook.Steps
import MyHttp.Theorems.IOManager.Waiting
import MyHttp.Theorems.TimerSet

/-! The timeout of a parked call. The timer is armed before the event is added, so its callback can run in between; a
    call that adds its event after that is parked with nothing left to wake it in time. -/

namespace MyHttp
namespace Hook

open IOManager Lib.Run Lib.Machine

variable {m n : Nat} {s t : Hook m n} {f g : Fin m} {c d : IoCall} {fd addr now j : Nat} {a : Act m n} {task : Task}
  {files : Nat → Option File} {cb : IoTimer}

/-- The event is added, and the fiber not yet switched in again. -/
def IoPc.waits : IoPc → Bool
  | .registered | .parked => true
  | _ => false

/-- The timer is added, and not yet taken back. -/
def IoPc.timed : IoPc → Bool
  | .armed => true
  | pc => pc.waits

theorem IoPc.timed_of_waits {pc : IoPc} (h : pc.waits = true) : pc.timed = true := by
  cases pc <;> first | rfl | cases h

/-- A callback that may still run. -/
def Known (s : Hook m n) (cb : IoTimer) : Prop :=
  (∃ addr, (s.timers.object addr).cb = some cb) ∨ cb ∈ s.queued ∨ cb ∈ s.running

/-- The timer of the call is in the timer set. -/
def Live (s : Hook m n) (c : IoCall) : Prop := ∃ addr, c.timer = some addr ∧ (s.timers.object addr).cb = some c.callback

/-- What holds of a call: `tinfo` is its own, and while it waits its event is registered, with its timeout to come
    (`due`) or, once that has struck, with the callback that cancels the event (`struck`). -/
structure Call (s : Hook m n) (f : Fin m) (c : IoCall) : Prop where
  held : ∃ i, s.infos[c.info]? = some i ∧ i.held = true
  callbacks : ∀ cb, s.Known cb → cb.info = c.info → cb = c.callback
  waits : c.pc.waits = true → entry f ∉ s.events.scheduled → s.events.FiberWaits c.fd c.event 0 f.val
  due : c.pc.timed = true → c.timeout ≠ maxUint64 → s.cancelled c.info = false → s.Live c ∨ c.callback ∈ s.queued
  struck : c.pc.waits = true → entry f ∉ s.events.scheduled → s.cancelled c.info = true → c.callback ∈ s.running

structure Sound (s : Hook m n) : Prop where
  timers : s.timers.Valid []
  known : ∀ cb, s.Known cb → cb.info < s.infos.length
  calls : ∀ f c, s.tasks f = .io c → s.Call f c
  owners : ∀ f g c d, s.tasks f = .io c → s.tasks g = .io d → f ≠ g → c.info ≠ d.info
  handles : ∀ f g c d addr, s.tasks f = .io c → s.tasks g = .io d → f ≠ g → c.timer = some addr → d.timer ≠ some addr

/-- `epoll_ctl` lets a cancellation by a timer through, and no call adds its event when its timeout has struck and the
    callback is over. -/
def Timely (s : Hook m n) : Act m n → Prop
  | .addEvent f refused =>
    match s.tasks f with
    | .io c => refused = false → (s.fds.files c.fd).isSome = true → s.cancelled c.info = true → c.callback ∈ s.running
    | _ => True
  | .cancelEvent j refused =>
    match s.running[j]? with
    | some cb => (s.events.contexts[cb.fd]?.any fun ctx => ctx.events.has cb.event) = true →
      refused = false ∧ (s.events.epoll cb.fd).isSome = true
    | none => True
  | _ => True

instance (s : Hook m n) (a : Act m n) : Decidable (Timely s a) := by
  induction a using Act.casesOn <;> dsimp only [Timely]
  case addEvent f refused => induction s.tasks f using Task.casesOn <;> infer_instance
  case cancelEvent j refused => induction s.running[j]? using Option.casesOn <;> infer_instance
  all_goals infer_instance

theorem entry_inj (h : entry f = entry g) : f = g := by
  unfold entry at h
  exact Fin.ext (Scheduler.Work.fiber.inj (Prod.mk.inj h).2)

/-! ### The other calls -/

/-- What a call sees of a step of somebody else. -/
structure Frame (s t : Hook m n) (f : Fin m) (c : IoCall) : Prop where
  info : t.infos[c.info]? = s.infos[c.info]?
  known : ∀ cb, t.Known cb → cb.info = c.info → s.Known cb
  scheduled : entry f ∈ s.events.scheduled → entry f ∈ t.events.scheduled
  waits : s.events.FiberWaits c.fd c.event 0 f.val →
    t.events.FiberWaits c.fd c.event 0 f.val ∨ entry f ∈ t.events.scheduled
  live : s.Live c → t.Live c ∨ c.callback ∈ t.queued
  queued : c.callback ∈ s.queued → c.callback ∈ t.queued
  running : c.callback ∈ s.running → c.callback ∈ t.running

theorem cancelled_eq {k : Nat} (h : t.infos[k]? = s.infos[k]?) : t.cancelled k = s.cancelled k := by
  unfold cancelled
  rw [h]

theorem Call.frame (h : s.Call f c) (hf : Frame s t f c) : t.Call f c where
  held := by
    rw [hf.info]
    exact h.held
  callbacks cb hk hcb := h.callbacks cb (hf.known cb hk hcb) hcb
  waits hpc hnot := (hf.waits (h.waits hpc fun hin => hnot (hf.scheduled hin))).resolve_right hnot
  due hpc htimeout hc := by
    rw [cancelled_eq hf.info] at hc
    rcases h.due hpc htimeout hc with hlive | hqueued
    · exact hf.live hlive
    · exact Or.inr (hf.queued hqueued)
  struck hpc hnot hc := by
    rw [cancelled_eq hf.info] at hc
    exact hf.running (h.struck hpc (fun hin => hnot (hf.scheduled hin)) hc)

theorem Frame.refl (s : Hook m n) (f : Fin m) (c : IoCall) : Frame s s f c :=
  ⟨rfl, fun _ hk _ => hk, id, Or.inl, Or.inl, id, id⟩

/-- A step that changes nothing but the event table, with progress. -/
theorem Frame.of_events {events : Descriptors n} (h : Descriptors.Progress s.events events) :
    Frame s { s with events } f c where
  info := rfl
  known _ hk _ := hk
  scheduled hin := h.scheduled _ hin
  waits hw := h.waits _ _ _ _ hw
  live := Or.inl
  queued := id
  running := id

/-! ### One fiber moves on -/

/-- A call shares neither its `tinfo` nor its timer with another one. -/
def Alone (s : Hook m n) (f : Fin m) (c : IoCall) : Prop :=
  ∀ g d, g ≠ f → s.tasks g = .io d → c.info ≠ d.info ∧ ∀ addr, c.timer = some addr → d.timer ≠ some addr

theorem Sound.alone (h : s.Sound) (hc : s.tasks f = .io c) : s.Alone f c := by
  intro g d hg hd
  exact ⟨h.owners f g c d hc hd (Ne.symm hg), fun addr haddr => h.handles f g c d addr hc hd (Ne.symm hg) haddr⟩

/-- A step of fiber `f`: the others see a frame, and the call that `f` goes on with has what it needs. -/
theorem Sound.move {u : Hook m n} (h : s.Sound) (htasks : u.tasks = s.tasks) (htimers : u.timers.Valid [])
    (hknown : ∀ cb, u.Known cb → cb.info < u.infos.length)
    (hframe : ∀ g c, g ≠ f → s.tasks g = .io c → Frame s u g c)
    (hown : ∀ c, task = .io c → u.Call f c ∧ s.Alone f c) : (u.setTask f task).Sound where
  timers := htimers
  known := hknown
  calls g c hc := by
    have hcall : u.Call g c := by
      by_cases hg : g = f
      · subst hg
        rw [setTask_self] at hc
        exact (hown c hc).1
      · rw [setTask_of_ne hg, htasks] at hc
        exact (h.calls g c hc).frame (hframe g c hg hc)
    exact ⟨hcall.held, hcall.callbacks, hcall.waits, hcall.due, hcall.struck⟩
  owners g k c d hc hd hgk := by
    by_cases hg : g = f
    · subst hg
      rw [setTask_self] at hc
      rw [setTask_of_ne (Ne.symm hgk), htasks] at hd
      exact ((hown c hc).2 k d (Ne.symm hgk) hd).1
    · rw [setTask_of_ne hg, htasks] at hc
      by_cases hk : k = f
      · subst hk
        rw [setTask_self] at hd
        exact Ne.symm ((hown d hd).2 g c hg hc).1
      · rw [setTask_of_ne hk, htasks] at hd
        exact h.owners g k c d hc hd hgk
  handles g k c d addr hc hd hgk haddr := by
    by_cases hg : g = f
    · subst hg
      rw [setTask_self] at hc
      rw [setTask_of_ne (Ne.symm hgk), htasks] at hd
      exact ((hown c hc).2 k d (Ne.symm hgk) hd).2 addr haddr
    · rw [setTask_of_ne hg, htasks] at hc
      by_cases hk : k = f
      · subst hk
        rw [setTask_self] at hd
        exact fun hd' => ((hown d hd).2 g c hg hc).2 addr hd' haddr
      · rw [setTask_of_ne hk, htasks] at hd
        exact h.handles g k c d addr hc hd hgk haddr

/-- A step that changes nothing but the task of a fiber. -/
theorem Sound.goto (h : s.Sound) (hown : ∀ c, task = .io c → s.Call f c ∧ s.Alone f c) : (s.setTask f task).Sound :=
  h.move rfl h.timers h.known (fun g c _ _ => .refl s g c) hown

/-- A step in which every call sees a frame. -/
theorem Sound.keep (h : s.Sound) (htasks : t.tasks = s.tasks) (htimers : t.timers.Valid [])
    (hknown : ∀ cb, t.Known cb → cb.info < t.infos.length)
    (hcalls : ∀ g c, s.tasks g = .io c → t.Call g c) : t.Sound where
  timers := htimers
  known := hknown
  calls g c hc := hcalls g c (htasks ▸ hc)
  owners g k c d hc hd := h.owners g k c d (htasks ▸ hc) (htasks ▸ hd)
  handles g k c d addr hc hd := h.handles g k c d addr (htasks ▸ hc) (htasks ▸ hd)

/-- `tinfo` is given up by a call that returns; the other calls have theirs. -/
theorem Frame.drop (h : s.Sound) (hc : s.tasks f = .io c) (hg : g ≠ f) (hd : s.tasks g = .io d) :
    Frame s (s.drop c.info) g d where
  info := by
    have hne : c.info ≠ d.info := h.owners f g c d hc hd (Ne.symm hg)
    exact List.getElem?_modify_ne _ _ hne
  known _ hk _ := hk
  scheduled := id
  waits := Or.inl
  live := Or.inl
  queued := id
  running := id

theorem drop_length {k : Nat} : (s.drop k).infos.length = s.infos.length := List.length_modify ..

theorem Sound.returned (h : s.Sound) (hc : s.tasks f = .io c) (htask : ∀ d, task ≠ .io d) :
    ((s.drop c.info).setTask f task).Sound := by
  refine h.move rfl h.timers (fun cb hk => ?_) (fun g d hg hd => .drop h hc hg hd) fun d hd => (htask d hd).elim
  rw [drop_length]
  exact h.known cb hk

/-! ### The steps of a fiber -/

theorem Sound.doIo {event : Event} {accept : Bool} (h : s.Sound) : (s.doIo f fd event accept).Sound := by
  rcases doIo_cases s f fd event accept with heq | heq | ⟨timeout, heq⟩
  · rw [heq]
    exact h.goto nofun
  · rw [heq]
    exact h.goto nofun
  · rw [heq]
    have hlt : ∀ g c, s.tasks g = .io c → c.info < s.infos.length := by
      intro g c hc
      obtain ⟨i, hi, -⟩ := (h.calls g c hc).held
      exact (List.getElem?_eq_some_iff.mp hi).1
    have hsome : ({ s with infos := s.infos ++ [⟨false, true⟩] } : Hook m n).infos[s.infos.length]? = some ⟨false, true⟩ :=
      List.getElem?_concat_length
    refine h.move rfl h.timers (fun cb hk => ?_) (fun g c hg hc => ?_) fun c hc => ?_
    · dsimp only
      rw [List.length_append]
      exact Nat.lt_add_right _ (h.known cb hk)
    · exact ⟨List.getElem?_append_left (hlt g c hc), fun _ hk _ => hk, id, Or.inl, Or.inl, id, id⟩
    · obtain rfl := Task.io.inj hc
      refine ⟨⟨⟨_, hsome, rfl⟩, fun cb hk hcb => ?_, nofun, nofun, nofun⟩, fun g d hg hd => ⟨?_, nofun⟩⟩
      · have hinfo := h.known cb hk
        rw [hcb] at hinfo
        exact (Nat.lt_irrefl _ hinfo).elim
      · exact Nat.ne_of_gt (hlt g d hd)

theorem Sound.finish {closed : Bool} {r : SysResult} (h : s.Sound) (hc : s.tasks f = .io c) :
    ((s.drop c.info).finish f closed r).Sound := by
  rcases finish_cases (s.drop c.info) f closed r with ⟨k, heq⟩ | ⟨fd, fds, heq⟩
  · rw [heq]
    exact h.returned hc nofun
  · rw [heq]
    refine h.move rfl h.timers (fun cb hk => ?_) (fun g d hg hd => ?_) nofun
    · exact drop_length.symm ▸ h.known cb hk
    · have hframe := Frame.drop h hc hg hd
      exact ⟨hframe.info, hframe.known, id, Or.inl, Or.inl, id, id⟩

theorem Sound.issue {r : SysResult} (h : s.Sound) (hs : s.issue f r = some t) : t.Sound := by
  rcases issue_cases hs with ⟨fd, accept, closed, -, rfl⟩ | ⟨c, hc, -, rfl | rfl | rfl⟩
  · rcases finish_cases s f closed r with ⟨k, heq⟩ | ⟨fd, fds, heq⟩
    · rw [heq]
      exact h.goto nofun
    · rw [heq]
      exact h.move rfl h.timers h.known (fun _ _ _ _ => ⟨rfl, fun _ hk _ => hk, id, Or.inl, Or.inl, id, id⟩) nofun
  · exact h
  · refine h.goto fun d hd => ?_
    obtain rfl := Task.io.inj hd
    have hcall := h.calls f c hc
    exact ⟨⟨hcall.held, hcall.callbacks, nofun, nofun, nofun⟩, fun g d => h.alone hc g d⟩
  · exact h.finish hc

theorem Sound.arm (h : s.Sound) (hs : s.arm f addr now = some t) : t.Sound := by
  obtain ⟨c, hc, -, hcases⟩ := arm_cases hs
  have hcall := h.calls f c hc
  rcases hcases with ⟨-, hunused, rfl⟩ | ⟨htimeout, rfl⟩
  · obtain ⟨hfree, hholds⟩ := Bool.and_eq_true_iff.mp hunused
    have hnone : (s.timers.object addr).cb = none := Option.isNone_iff_eq_none.mp hfree
    have hself : ((s.timers.addTimer addr now c.timeout (some c.callback) false).2.object addr).cb = some c.callback := by
      show ((s.timers.set addr _).object addr).cb = _
      rw [TimerObjects.set_object_self]
    have hother : ∀ b, b ≠ addr →
        (s.timers.addTimer addr now c.timeout (some c.callback) false).2.object b = s.timers.object b := fun b hb =>
      TimerObjects.set_object_of_ne hb
    have hknown : ∀ cb, Known { s with timers := (s.timers.addTimer addr now c.timeout (some c.callback) false).2 } cb →
        cb = c.callback ∨ s.Known cb := by
      rintro cb (⟨b, hb⟩ | hin)
      · by_cases hba : b = addr
        · rw [hba] at hb
          exact Or.inl (Option.some.inj (hb.symm.trans hself))
        · exact Or.inr (Or.inl ⟨b, by rw [← hother b hba]; exact hb⟩)
      · exact Or.inr (Or.inr hin)
    refine h.move rfl (h.timers.addTimer hnone rfl) (fun cb hk => ?_) (fun g d hg hd => ?_) fun d hd => ?_
    · rcases hknown cb hk with rfl | hk
      · obtain ⟨i, hi, -⟩ := hcall.held
        exact (List.getElem?_eq_some_iff.mp hi).1
      · exact h.known cb hk
    · refine ⟨rfl, fun cb hk hcb => ?_, id, Or.inl, ?_, id, id⟩
      · rcases hknown cb hk with rfl | hk
        · exact (h.owners f g c d hc hd (Ne.symm hg) hcb).elim
        · exact hk
      · rintro ⟨b, hb, hlive⟩
        refine Or.inl ⟨b, hb, ?_⟩
        have hba : b ≠ addr := by
          rintro rfl
          rw [hnone] at hlive
          cases hlive
        dsimp only
        rw [hother b hba]
        exact hlive
    · obtain rfl := Task.io.inj hd
      refine ⟨⟨hcall.held, fun cb hk hcb => ?_, nofun, fun _ _ _ => ?_, nofun⟩, fun g d hg hd => ⟨?_, ?_⟩⟩
      · rcases hknown cb hk with rfl | hk
        · rfl
        · exact hcall.callbacks cb hk hcb
      · exact Or.inl ⟨addr, rfl, hself⟩
      · exact h.owners f g c d hc hd (Ne.symm hg)
      · rintro b hb hdb
        obtain rfl := Option.some.inj hb
        have hfalse := of_decide_eq_true hholds g
        rw [hd] at hfalse
        exact of_decide_eq_false hfalse hdb
  · refine h.goto fun d hd => ?_
    obtain rfl := Task.io.inj hd
    refine ⟨⟨hcall.held, hcall.callbacks, nofun, fun _ hne => (hne htimeout).elim, nofun⟩, fun g d hg hd => ⟨?_, nofun⟩⟩
    exact h.owners f g c d hc hd (Ne.symm hg)

/-- What `timer->cancel()` leaves. -/
theorem cancelTimers_spec {timers : TimerObjects IoTimer} (h : s.timers.Valid [])
    (hs : cancelTimers s.timers c.timer = some timers) : timers.Valid [] ∧
      ∀ b, (timers.object b).cb = (s.timers.object b).cb ∨ (timers.object b).cb = none ∧ c.timer = some b := by
  unfold cancelTimers at hs
  split at hs
  · obtain rfl := Option.some.inj hs
    exact ⟨h, fun _ => Or.inl rfl⟩
  · rename_i addr haddr
    obtain ⟨r, hr, rfl⟩ := Option.map_eq_some_iff.mp hs
    refine ⟨h.cancel hr, fun b => ?_⟩
    by_cases hb : b = addr
    · subst hb
      rcases hcb : (s.timers.object b).cb with _ | cb
      · rw [TimerObjects.cancel_dead hcb] at hr
        obtain rfl := Option.some.inj hr
        exact Or.inl hcb
      · obtain ⟨it, -, -, heq⟩ := TimerObjects.cancel_live h (show (s.timers.object b).cb.isSome by rw [hcb]; rfl)
        rw [heq] at hr
        obtain rfl := Option.some.inj hr
        refine Or.inr ⟨?_, haddr⟩
        rw [TimerObjects.set_object_self]
    · exact Or.inl (TimerObjects.cancel_cb hr hb)

/-- No callback comes up when a timer is taken back. -/
theorem known_cancelTimers {timers : TimerObjects IoTimer} (h : s.timers.Valid [])
    (hs : cancelTimers s.timers c.timer = some timers) (hk : Known { s with timers } cb) : s.Known cb := by
  rcases hk with ⟨b, hb⟩ | hk
  · rcases (cancelTimers_spec h hs).2 b with heq | ⟨heq, -⟩
    · exact Or.inl ⟨b, heq.symm.trans hb⟩
    · cases heq.symm.trans hb
  · exact Or.inr hk

/-- The other calls do not see that a call takes its timer back. -/
theorem Frame.cancelTimers {timers : TimerObjects IoTimer} (h : s.Sound) (hc : s.tasks f = .io c) (hg : g ≠ f)
    (hd : s.tasks g = .io d) (hs : cancelTimers s.timers c.timer = some timers) : Frame s { s with timers } g d where
  info := rfl
  known _ hk _ := known_cancelTimers h.timers hs hk
  scheduled := id
  waits := Or.inl
  live hlive := by
    obtain ⟨b, hb, hcb⟩ := hlive
    rcases (cancelTimers_spec h.timers hs).2 b with heq | ⟨-, hcb'⟩
    · exact Or.inl ⟨b, hb, heq.trans hcb⟩
    · exact (h.handles f g c d b hc hd (Ne.symm hg) hcb' hb).elim
  queued := id
  running := id

theorem Frame.trans {u : Hook m n} (h₁ : Frame s t f c) (h₂ : Frame t u f c) : Frame s u f c where
  info := h₂.info.trans h₁.info
  known cb hk hcb := h₁.known cb (h₂.known cb hk hcb) hcb
  scheduled hin := h₂.scheduled (h₁.scheduled hin)
  waits hw := by
    rcases h₁.waits hw with hw | hw
    · exact h₂.waits hw
    · exact Or.inr (h₂.scheduled hw)
  live hl := by
    rcases h₁.live hl with hl | hl
    · exact h₂.live hl
    · exact Or.inr (h₂.queued hl)
  queued hq := h₂.queued (h₁.queued hq)
  running hr := h₂.running (h₁.running hr)

theorem Sound.addEvent {refused : Bool} (h : s.Sound) (hok : s.Timely (.addEvent f refused))
    (hs : s.addEvent f refused = some t) : t.Sound := by
  obtain ⟨c, ok, events, hc, hpc, hadd, hcases⟩ := addEvent_cases hs
  obtain ⟨hprogress, hwaits⟩ := Descriptors.progress_addEvent hadd
  have hcall := h.calls f c hc
  rcases hcases with ⟨rfl, rfl⟩ | ⟨timers, rfl, htimers, rfl⟩
  · refine h.move rfl h.timers h.known (fun g d _ _ => .of_events hprogress) fun d hd => ?_
    obtain rfl := Task.io.inj hd
    unfold Timely at hok
    dsimp only at hok
    rw [hc] at hok
    have htaken : (refused || (s.fds.files c.fd).isNone) = false := by
      refine Bool.eq_false_iff.mpr fun hrefused => ?_
      rw [hrefused] at hadd
      cases Descriptors.addEvent_refused hadd
    obtain ⟨hrefused, hopen⟩ := Bool.or_eq_false_iff.mp htaken
    have hstruck := hok hrefused (Option.isSome_iff_ne_none.mpr fun e => by rw [e] at hopen; cases hopen)
    have hdue := hcall.due (by rw [hpc]; rfl)
    exact ⟨⟨hcall.held, hcall.callbacks, fun _ _ => hwaits rfl, fun _ => hdue, fun _ _ => hstruck⟩,
      fun g d => h.alone hc g d⟩
  · refine h.move rfl (cancelTimers_spec h.timers htimers).1 (fun cb hk => ?_) (fun g d hg hd => ?_) nofun
    · show cb.info < (s.drop c.info).infos.length
      rw [drop_length]
      exact h.known cb (known_cancelTimers h.timers htimers hk)
    · have hframe := ((Frame.drop h hc hg hd).trans (.refl ..))
      have htimer := Frame.cancelTimers h hc hg hd htimers
      have hevents : Frame s { s with events } g d := .of_events hprogress
      exact ⟨hframe.info, htimer.known, hevents.scheduled, hevents.waits, htimer.live, id, id⟩

theorem Sound.yield (h : s.Sound) (hs : s.yield f = some t) : t.Sound := by
  obtain ⟨c, hc, hpc, rfl⟩ := yield_cases hs
  refine h.goto fun d hd => ?_
  obtain rfl := Task.io.inj hd
  have hcall := h.calls f c hc
  have hwaits : c.pc.waits = true := by rw [hpc]; rfl
  exact ⟨⟨hcall.held, hcall.callbacks, fun _ => hcall.waits hwaits, fun _ => hcall.due (IoPc.timed_of_waits hwaits),
    fun _ => hcall.struck hwaits⟩, fun g d => h.alone hc g d⟩

theorem Sound.resume (h : s.Sound) (hs : s.resume f = some t) : t.Sound := by
  obtain ⟨c, hc, -, rfl⟩ := resume_cases hs
  have hcall := h.calls f c hc
  refine h.move rfl h.timers h.known (fun g d hg _ => ?_) fun d hd => ?_
  · refine ⟨rfl, fun _ hk _ => hk, fun hin => ?_, fun hw => Or.inl hw, Or.inl, id, id⟩
    exact (List.mem_erase_of_ne fun e => hg (entry_inj e)).mpr hin
  · obtain rfl := Task.io.inj hd
    exact ⟨⟨hcall.held, hcall.callbacks, nofun, nofun, nofun⟩, fun g d => h.alone hc g d⟩

theorem Sound.cancelTimer (h : s.Sound) (hs : s.cancelTimer f = some t) : t.Sound := by
  obtain ⟨c, timers, hc, -, htimers, rfl⟩ := cancelTimer_cases hs
  have hcall := h.calls f c hc
  have hknown : ∀ cb, Known { s with timers } cb → s.Known cb := fun _ => known_cancelTimers h.timers htimers
  refine h.move rfl (cancelTimers_spec h.timers htimers).1 (fun cb hk => h.known cb (hknown cb hk))
    (fun g d hg hd => .cancelTimers h hc hg hd htimers) fun d hd => ?_
  obtain rfl := Task.io.inj hd
  exact ⟨⟨hcall.held, fun cb hk => hcall.callbacks cb (hknown cb hk), nofun, nofun, nofun⟩,
    fun g d hg hd => ⟨(h.alone hc g d hg hd).1, nofun⟩⟩

theorem Sound.check (h : s.Sound) (hs : s.check f = some t) : t.Sound := by
  obtain ⟨c, hc, -, ⟨-, rfl⟩ | ⟨-, rfl⟩⟩ := check_cases hs
  · exact h.returned hc nofun
  · refine h.goto fun d hd => ?_
    obtain rfl := Task.io.inj hd
    have hcall := h.calls f c hc
    exact ⟨⟨hcall.held, hcall.callbacks, nofun, nofun, nofun⟩, fun g d => h.alone hc g d⟩

theorem Sound.close {refused : Bool} (h : s.Sound) (hs : s.close f fd refused = some t) : t.Sound := by
  obtain ⟨-, rfl | ⟨ok, events, hevents, rfl⟩⟩ := close_cases hs
  · exact h.goto nofun
  · exact h.move rfl h.timers h.known (fun g d _ _ => .of_events (Descriptors.progress_cancelAll hevents)) nofun

/-- The calls on the descriptor are marked, which nothing here looks at. -/
theorem Sound.closeFd (h : s.Sound) (hs : s.closeFd f = some t) : t.Sound := by
  obtain ⟨fd, -, rfl⟩ := closeFd_cases hs
  have hold : ∀ g c, (Function.update (fun g => (s.tasks g).close fd) f (.returned (some 0) false)) g = .io c →
      ∃ d, s.tasks g = .io d ∧ c = { d with closed := c.closed } := by
    intro g c hc
    by_cases hg : g = f
    · rw [hg, Function.update_self] at hc
      cases hc
    · rw [Function.update_of_ne hg] at hc
      cases htask : s.tasks g with
      | io d =>
        rw [htask] at hc
        obtain rfl := Task.io.inj hc
        exact ⟨d, rfl, rfl⟩
      | idle | direct | accepted | closing | returned =>
        rw [htask] at hc
        cases hc
  refine ⟨h.timers, h.known, fun g c hc => ?_, fun g k c d hc hd hgk => ?_, fun g k c d addr hc hd hgk => ?_⟩
  · obtain ⟨c₀, hc₀, heq⟩ := hold g c hc
    have hcall := h.calls g c₀ hc₀
    rw [heq]
    exact ⟨hcall.held, hcall.callbacks, hcall.waits, hcall.due, hcall.struck⟩
  · obtain ⟨c₀, hc₀, hceq⟩ := hold g c hc
    obtain ⟨d₀, hd₀, hdeq⟩ := hold k d hd
    rw [hceq, hdeq]
    exact h.owners g k c₀ d₀ hc₀ hd₀ hgk
  · obtain ⟨c₀, hc₀, hceq⟩ := hold g c hc
    obtain ⟨d₀, hd₀, hdeq⟩ := hold k d hd
    rw [hceq, hdeq]
    exact h.handles g k c₀ d₀ addr hc₀ hd₀ hgk

/-! ### The steps of the workers -/

theorem Sound.expire {probe : Nat} (h : s.Sound) (hs : s.expire probe now = some t) : t.Sound := by
  obtain ⟨hunused, rfl⟩ := expire_cases hs
  have hnone : (s.timers.object probe).cb = none :=
    Option.isNone_iff_eq_none.mp (Bool.and_eq_true_iff.mp hunused).1
  obtain ⟨-, hcbs, hcb, hvalid⟩ := TimerObjects.listExpiredCb_expired now h.timers hnone
  have hold : ∀ b cb, ((s.timers.listExpiredCb probe now).2.object b).cb = some cb →
      (s.timers.object b).cb = some cb := by
    intro b cb hb
    rw [hcb b] at hb
    split at hb
    · cases hb
    · exact hb
  have hknown : ∀ cb, Known { s with
      timers := (s.timers.listExpiredCb probe now).2
      queued := s.queued ++ (s.timers.listExpiredCb probe now).1.filterMap id } cb → s.Known cb := by
    rintro cb (⟨b, hb⟩ | hq | hr)
    · exact Or.inl ⟨b, hold b cb hb⟩
    · rcases List.mem_append.mp hq with hq | hq
      · exact Or.inr (Or.inl hq)
      · obtain ⟨x, hx, rfl⟩ := List.mem_filterMap.mp hq
        rw [hcbs] at hx
        obtain ⟨b, -, hb⟩ := List.mem_map.mp hx
        exact Or.inl ⟨b, hb⟩
    · exact Or.inr (Or.inr hr)
  refine h.keep rfl hvalid (fun cb hk => h.known cb (hknown cb hk)) fun g c hc => (h.calls g c hc).frame ?_
  refine ⟨rfl, fun cb hk _ => hknown cb hk, id, Or.inl, ?_, List.mem_append_left _, id⟩
  rintro ⟨b, hb, hlive⟩
  by_cases hout : b ∈ s.timers.expired probe now ∧ (s.timers.object b).recurring = false
  · refine Or.inr (List.mem_append_right _ (List.mem_filterMap.mpr ⟨some c.callback, ?_, rfl⟩))
    rw [hcbs]
    exact List.mem_map.mpr ⟨b, hout.1, hlive⟩
  · refine Or.inl ⟨b, hb, ?_⟩
    exact ((hcb b).trans (if_neg hout)).trans hlive

/-- Another element stays when one is taken out. -/
theorem mem_eraseIdx_of_ne {l : List IoTimer} {x : IoTimer} (hj : l[j]? = some cb) (hx : x ∈ l) (hne : x ≠ cb) :
    x ∈ l.eraseIdx j := by
  obtain ⟨i, hi⟩ := List.mem_iff_getElem?.mp hx
  refine List.mem_eraseIdx_iff_getElem?.mpr ⟨i, ?_, hi⟩
  rintro rfl
  exact hne (Option.some.inj (hi.symm.trans hj))

theorem Sound.fire (h : s.Sound) (hs : s.fire j = some t) : t.Sound := by
  obtain ⟨cb, hcb, hcases⟩ := fire_cases hs
  have hmem : cb ∈ s.queued := List.mem_of_getElem? hcb
  rcases hcases with ⟨-, rfl⟩ | ⟨hno, rfl⟩
  · have hknown : ∀ x, Known { s with
        queued := s.queued.eraseIdx j
        infos := s.infos.modify cb.info fun i => { i with cancelled := true }
        running := s.running ++ [cb] } x → s.Known x := by
      rintro x (hx | hx | hx)
      · exact Or.inl hx
      · exact Or.inr (Or.inl (List.mem_of_mem_eraseIdx hx))
      · rcases List.mem_append.mp hx with hx | hx
        · exact Or.inr (Or.inr hx)
        · obtain rfl := List.mem_singleton.mp hx
          exact Or.inr (Or.inl hmem)
    refine h.keep rfl h.timers (fun x hx => ?_) fun g c hc => ?_
    · dsimp only
      rw [List.length_modify]
      exact h.known x (hknown x hx)
    · have hcall := h.calls g c hc
      by_cases hinfo : cb.info = c.info
      · -- the callback of this call: its timeout has struck
        obtain rfl := hcall.callbacks cb (Or.inr (Or.inl hmem)) hinfo
        obtain ⟨i, hi, hheld⟩ := hcall.held
        have hmodify : (s.infos.modify c.info fun i => { i with cancelled := true })[c.info]? =
            some { i with cancelled := true } := by
          rw [List.getElem?_modify_eq, hi]
          rfl
        refine ⟨⟨_, hmodify, hheld⟩, fun x hx => hcall.callbacks x (hknown x hx), hcall.waits, fun _ _ hc => ?_,
          fun _ _ _ => List.mem_append_right _ (List.mem_singleton_self _)⟩
        unfold cancelled at hc
        dsimp only at hc
        rw [show c.callback.info = c.info from rfl, hmodify] at hc
        cases hc
      · refine hcall.frame ⟨List.getElem?_modify_ne _ _ hinfo, fun x hx _ => hknown x hx, id, Or.inl, Or.inl,
          fun hq => mem_eraseIdx_of_ne hcb hq ?_, List.mem_append_left _⟩
        rintro rfl
        exact hinfo rfl
  · have hknown : ∀ x, Known { s with queued := s.queued.eraseIdx j } x → s.Known x := by
      rintro x (hx | hx | hx)
      · exact Or.inl hx
      · exact Or.inr (Or.inl (List.mem_of_mem_eraseIdx hx))
      · exact Or.inr (Or.inr hx)
    refine h.keep rfl h.timers (fun x hx => h.known x (hknown x hx)) fun g c hc => ?_
    have hcall := h.calls g c hc
    by_cases hinfo : cb.info = c.info
    · -- the call has timed out before, or it would not be passed over
      obtain ⟨i, hi, hheld⟩ := hcall.held
      have hstruck : s.cancelled c.info = true := by
        unfold Hook.waits at hno
        unfold cancelled
        rw [hinfo, hi] at hno
        rw [hi]
        simpa [hheld] using hno
      refine ⟨⟨i, hi, hheld⟩, fun x hx => hcall.callbacks x (hknown x hx), hcall.waits, fun _ _ hc => ?_, hcall.struck⟩
      have hfalse : s.cancelled c.info = false := hc
      rw [hstruck] at hfalse
      cases hfalse
    · refine hcall.frame ⟨rfl, fun x hx _ => hknown x hx, id, Or.inl, Or.inl, fun hq => mem_eraseIdx_of_ne hcb hq ?_, id⟩
      rintro rfl
      exact hinfo rfl

/-- A callback cancels the event of its call; the fiber that waits for it is scheduled. -/
theorem Sound.cancelled {events : Descriptors n} (h : s.Sound) (hcb : s.running[j]? = some cb)
    (hprogress : Descriptors.Progress s.events events)
    (hwakes : ∀ f, s.events.FiberWaits cb.fd cb.event 0 f → (0, .fiber f) ∈ events.scheduled) :
    Sound { s with running := s.running.eraseIdx j, events } := by
  have hknown : ∀ x, Known { s with running := s.running.eraseIdx j, events } x → s.Known x := by
    rintro x (hx | hx | hx)
    · exact Or.inl hx
    · exact Or.inr (Or.inl hx)
    · exact Or.inr (Or.inr (List.mem_of_mem_eraseIdx hx))
  refine h.keep rfl h.timers (fun x hx => h.known x (hknown x hx)) fun g c hc => ?_
  have hcall := h.calls g c hc
  have hwaits := hprogress.waits c.fd c.event 0 g.val
  refine ⟨hcall.held, fun x hx => hcall.callbacks x (hknown x hx), fun hpc hnot => ?_, hcall.due,
    fun hpc hnot hc => ?_⟩
  · exact (hwaits (hcall.waits hpc fun hin => hnot (hprogress.scheduled _ hin))).resolve_right hnot
  · have hnot' : entry g ∉ s.events.scheduled := fun hin => hnot (hprogress.scheduled _ hin)
    refine mem_eraseIdx_of_ne hcb (hcall.struck hpc hnot' hc) ?_
    rintro rfl
    exact hnot (hwakes g.val (hcall.waits hpc hnot'))

theorem Sound.cancelEvent {refused : Bool} (h : s.Sound) (hok : s.Timely (.cancelEvent j refused))
    (hs : s.cancelEvent j refused = some t) : t.Sound := by
  obtain ⟨cb, hcb, hcases⟩ := cancelEvent_cases hs
  unfold Timely at hok
  dsimp only at hok
  rw [hcb] at hok
  have hregistered : ∀ f, s.events.FiberWaits cb.fd cb.event 0 f →
      refused = false ∧ (s.events.epoll cb.fd).isSome = true := by
    rintro f ⟨ctx, hctx, hholds⟩
    refine hok ?_
    rw [hctx]
    exact hholds.1
  rcases hcases with ⟨hrefused, rfl⟩ | ⟨ok, events, -, hevents, rfl⟩
  · refine h.cancelled hcb (.refl _) fun f hw => ?_
    rw [(hregistered f hw).1] at hrefused
    cases hrefused
  · exact h.cancelled hcb (Descriptors.progress_cancelEvent hevents) fun f hw =>
      hw.cancelEvent (hregistered f hw).2 hevents

theorem Sound.step (h : s.Sound) (hok : s.Timely a) (hs : s.step a = some t) : t.Sound := by
  cases a with
  | doIo f fd event accept =>
    obtain ⟨-, heq⟩ := Option.ite_none_right_eq_some.mp hs
    obtain rfl := Option.some.inj heq
    exact h.doIo
  | issue f r => exact h.issue hs
  | arm f addr now => exact h.arm hs
  | addEvent f refused => exact h.addEvent hok hs
  | yield f => exact h.yield hs
  | resume f => exact h.resume hs
  | cancelTimer f => exact h.cancelTimer hs
  | check f => exact h.check hs
  | context f =>
    obtain ⟨fd, -, rfl⟩ := context_cases hs
    exact h.move rfl h.timers h.known (fun _ _ _ _ => ⟨rfl, fun _ hk _ => hk, id, Or.inl, Or.inl, id, id⟩) nofun
  | close f fd refused => exact h.close hs
  | closeFd f => exact h.closeFd hs
  | onFd a =>
    obtain ⟨fds, rfl⟩ := onFd_cases hs
    exact h.keep rfl h.timers h.known fun g c hc =>
      (h.calls g c hc).frame ⟨rfl, fun _ hk _ => hk, id, Or.inl, Or.inl, id, id⟩
  | expire probe now => exact h.expire hs
  | fire j => exact h.fire hs
  | cancelEvent j refused => exact h.cancelEvent hok hs
  | wait w reports =>
    obtain ⟨events, hevents, rfl⟩ := Option.map_eq_some_iff.mp hs
    exact h.keep rfl h.timers h.known fun g c hc =>
      (h.calls g c hc).frame (.of_events (Descriptors.progress_step (fun _ e => by cases e) hevents))
  | dispatch w =>
    obtain ⟨events, hevents, rfl⟩ := Option.map_eq_some_iff.mp hs
    exact h.keep rfl h.timers h.known fun g c hc =>
      (h.calls g c hc).frame (.of_events (Descriptors.progress_step (fun _ e => by cases e) hevents))

theorem sound_init (files : Nat → Option File) (now : Nat) : Sound (init files now : Hook m n) where
  timers := .new
  known cb hk := by
    rcases hk with ⟨addr, haddr⟩ | hk | hk
    · cases haddr
    · cases hk
    · cases hk
  calls _ _ hc := by cases hc
  owners _ _ _ _ hc := by cases hc
  handles _ _ _ _ _ hc := by cases hc

/-! ### Runs -/

/-- A parked call with a timeout: its timer is in the timer set, or its callback is queued or running, or its fiber is
    scheduled. -/
def Wakes (s : Hook m n) (f : Fin m) (c : IoCall) : Prop :=
  (∃ addr, c.timer = some addr ∧ addr ∈ s.timers.timers ∧ (s.timers.object addr).cb = some c.callback) ∨
  c.callback ∈ s.queued ∨ c.callback ∈ s.running ∨ entry f ∈ s.events.scheduled

/-- In every run that meets the condition, no call is parked with its timeout consumed. -/
theorem timeouts_kept (h : Reach step Timely (init files now : Hook m n) s) (f : Fin m) (c : IoCall)
    (hc : s.tasks f = .io c) (hpc : c.pc = .parked) (htimeout : c.timeout ≠ maxUint64) : s.Wakes f c := by
  have hs : s.Sound := h.invariant (sound_init files now) fun _ _ _ hP hok hs => hP.step hok hs
  have hcall := hs.calls f c hc
  by_cases hin : entry f ∈ s.events.scheduled
  · exact Or.inr (Or.inr (Or.inr hin))
  · rcases hcancelled : s.cancelled c.info with _ | _
    · rcases hcall.due (by rw [hpc]; rfl) htimeout hcancelled with ⟨addr, haddr, hlive⟩ | hqueued
      · have hmem := (hs.timers.live addr).mpr ⟨by rw [hlive]; rfl, List.not_mem_nil⟩
        exact Or.inl ⟨addr, haddr, hmem, hlive⟩
      · exact Or.inr (Or.inl hqueued)
    · exact Or.inr (Or.inr (Or.inl (hcall.struck (by rw [hpc]; rfl) hin hcancelled)))

/-- A call that waits with its timer armed. -/
theorem timeouts_kept_armed :
    let s := (exec step Timely (init (fun _ => none) 0 : Hook 1 1) [.onFd (.socket (some (3, 2))),
      .onFd (.setsockopt 3 .recv 0 1000), .doIo 0 3 .read false, .issue 0 .eagain, .arm 0 16 1000, .addEvent 0 false,
      .yield 0]).get (by decide +kernel)
    s.Wakes 0 ⟨3, .read, false, 1, 0, some 16, .parked, false⟩ := by
  intro s
  have hreach : Reach step Timely (init (fun _ => none) 0 : Hook 1 1) s := reach_of_exec (Option.some_get _).symm
  exact timeouts_kept hreach 0 _ (by decide +kernel) rfl (by decide)

/-- The timeout strikes between the arming of the timer and `addEvent`, and the call is parked for good. -/
theorem timeout_lost : ¬∀ (m n : Nat) (files : Nat → Option File) (now : Nat) (s : Hook m n),
    Reach step (fun _ _ => True) (init files now) s → ∀ f c, s.tasks f = .io c → c.pc = .parked →
    c.timeout ≠ maxUint64 → s.Wakes f c := by
  intro h
  let s := (exec step (fun _ _ => True) (init (fun _ => none) 0 : Hook 1 1) [.onFd (.socket (some (3, 2))),
    .onFd (.setsockopt 3 .recv 0 1000), .doIo 0 3 .read false, .issue 0 .eagain, .arm 0 16 1000, .expire 24 1002,
    .fire 0, .cancelEvent 0 false, .addEvent 0 false, .yield 0]).get (by decide +kernel)
  have hs := h 1 1 _ 0 s (reach_of_exec (Option.some_get _).symm) 0 ⟨3, .read, false, 1, 0, some 16, .parked, false⟩
    (by decide +kernel) rfl (by decide)
  have htimers : s.timers.timers = [] := by decide +kernel
  have hqueued : s.queued = [] := by decide +kernel
  have hrunning : s.running = [] := by decide +kernel
  have hscheduled : s.events.scheduled = [] := by decide +kernel
  rcases hs with ⟨addr, -, hmem, -⟩ | hmem | hmem | hmem
  · rw [htimers] at hmem
    cases hmem
  · rw [hqueued] at hmem
    cases hmem
  · rw [hrunning] at hmem
    cases hmem
  · rw [hscheduled] at hmem
    cases hmem

end Hook
end MyHttp

import MyHttp.Theorems.Hook.Timeouts

/-! Who is woken: a fiber stands in at most one place of the event table or of the scheduler's queue, and only while its call waits. -/

namespace MyHttp
namespace Hook

open IOManager Scheduler

variable {m n : Nat} {s t : Hook m n} {f g : Fin m} {c d : IoCall} {fd addr now i j k : Nat} {e : Event} {a : Act m n} {task : Task} {k : Nat}
  {files : Nat → Option File} {events : Descriptors n} {hit : Nat → Event → Prop} {ec : EventContext}

/-- The fiber waits for this event. -/
def WaitsOn (s : Hook m n) (f : Fin m) (fd : Nat) (e : Event) : Prop :=
  ∃ c, s.tasks f = .io c ∧ c.fd = fd ∧ c.event = e ∧ c.pc.waits = true

/-- A place of the table is empty, or it holds a fiber that waits for its event. -/
def Slot (s : Hook m n) (fd : Nat) (e : Event) (ec : EventContext) : Prop :=
  ec = .empty ∨ ∃ f : Fin m, ec = ⟨some 0, some f.val, none⟩ ∧ s.WaitsOn f fd e ∧ entry f ∉ s.events.scheduled

structure Slots (s : Hook m n) : Prop where
  slots : ∀ fd ctx e, s.events.contexts[fd]? = some ctx → s.Slot fd e (ctx.getContext e)
  queued : ∀ x ∈ s.events.scheduled, ∃ f fd e, x = entry f ∧ s.WaitsOn f fd e
  nodup : s.events.scheduled.Nodup
  running : ∀ cb ∈ s.running, s.cancelled cb.info = true

theorem WaitsOn.unique {fd' : Nat} {e' : Event} (h : s.WaitsOn f fd e) (h' : s.WaitsOn f fd' e') : fd = fd' ∧ e = e' := by
  obtain ⟨c, hc, rfl, rfl, -⟩ := h
  obtain ⟨c', hc', rfl, rfl, -⟩ := h'
  obtain rfl := Task.io.inj (hc.symm.trans hc')
  exact ⟨rfl, rfl⟩

/-- A step that keeps the contexts, the queue, and those that wait. -/
theorem Slots.of (h : s.Slots) (hcontexts : t.events.contexts = s.events.contexts) (hscheduled : t.events.scheduled = s.events.scheduled)
    (hwaits : ∀ f fd e, s.WaitsOn f fd e → t.WaitsOn f fd e) (hrunning : ∀ cb ∈ t.running, t.cancelled cb.info = true) : t.Slots := by
  refine ⟨fun fd ctx e hctx => ?_, fun x hx => ?_, hscheduled ▸ h.nodup, hrunning⟩
  · rcases h.slots fd ctx e (hcontexts ▸ hctx) with hempty | ⟨f, hec, hf, hnot⟩
    · exact .inl hempty
    · exact .inr ⟨f, hec, hwaits f fd e hf, hscheduled ▸ hnot⟩
  · obtain ⟨f, fd, e, heq, hf⟩ := h.queued x (hscheduled ▸ hx)
    exact ⟨f, fd, e, heq, hwaits f fd e hf⟩

/-! ### Operations on the table -/

/-- The table changes, and only fibers that wait for these events are woken. -/
structure WakesOnly (s : Hook m n) (events : Descriptors n) (hit : Nat → Event → Prop) : Prop where
  slots : Slots { s with events }
  woken : ∀ f, entry f ∈ events.scheduled → entry f ∈ s.events.scheduled ∨ ∃ fd e, s.WaitsOn f fd e ∧ hit fd e

/-- A change of the table outside of the contexts and the queue. -/
theorem Slots.keep (h : s.Slots) (hcontexts : events.contexts = s.events.contexts) (hscheduled : events.scheduled = s.events.scheduled) :
    WakesOnly s events hit :=
  ⟨h.of hcontexts hscheduled (fun _ _ _ => id) h.running, fun _ hf => .inl (hscheduled ▸ hf)⟩

theorem WakesOnly.trans {events' : Descriptors n} (h : WakesOnly s events hit) (h' : WakesOnly { s with events } events' hit) :
    WakesOnly s events' hit :=
  ⟨h'.slots, fun f hf => (h'.woken f hf).elim (h.woken f) .inr⟩

theorem WakesOnly.mono {hit' : Nat → Event → Prop} (h : WakesOnly s events hit) (hhit : ∀ fd e, hit fd e → hit' fd e) :
    WakesOnly s events hit' :=
  ⟨h.slots, fun f hf => (h.woken f hf).imp_right fun ⟨fd, e, hwaits, he⟩ => ⟨fd, e, hwaits, hhit fd e he⟩⟩

/-- What a place holds that is triggered. -/
theorem Slots.triggerEvent (h : s.Slots) {ctx ctx' : FdContext} {l : List (SchedulerId × Work)} (hctx : s.events.contexts[i]? = some ctx)
    (ht : ctx.triggerEvent e = .ok (ctx', l)) : ∃ f : Fin m, s.WaitsOn f i e ∧ entry f ∉ s.events.scheduled ∧ l = [entry f] ∧
      ∀ e', ctx'.getContext e' = if e = e' then .empty else ctx.getContext e' := by
  unfold FdContext.triggerEvent at ht
  rcases h.slots i ctx e hctx with hempty | ⟨f, hec, hwaits, hnot⟩
  · rw [hempty] at ht
    split at ht
    · cases ht
    · cases ht
  · rw [hec] at ht
    split at ht
    · obtain ⟨rfl, rfl⟩ := Prod.mk.inj (Except.ok.inj ht)
      refine ⟨f, hwaits, hnot, rfl, fun e' => ?_⟩
      rw [FdContext.getContext_setContext]
      cases e' <;> rfl
    · cases ht

theorem Slots.trigger (h : s.Slots) (ht : s.events.trigger i e = .ok events) :
    WakesOnly s events fun fd e' => fd = i ∧ e' = e := by
  unfold Descriptors.trigger at ht
  split at ht
  · cases ht
  · rename_i ctx hctx
    obtain ⟨⟨ctx', l⟩, hr, rfl⟩ := Descriptors.map_ok.mp ht
    obtain ⟨f, hwaits, hnot, rfl, hget⟩ := h.triggerEvent hctx hr
    have hkeeps : ∀ {fd e' ec}, (fd = i → e' ≠ e) → s.Slot fd e' ec →
        Slot { s with events := { s.events.setContext i ctx' with
          scheduled := s.events.scheduled ++ [entry f], pendingEventCount := s.events.pendingEventCount - 1 } } fd e' ec := by
      rintro fd e' ec hother (hempty | ⟨g, hec, hg, hgnot⟩)
      · exact .inl hempty
      · refine .inr ⟨g, hec, hg, fun hmem => ?_⟩
        rcases List.mem_append.mp hmem with hmem | hmem
        · exact hgnot hmem
        · obtain rfl : g = f := entry_inj (List.mem_singleton.mp hmem)
          obtain ⟨hfd, he⟩ := hg.unique hwaits
          exact hother hfd he
    refine ⟨⟨fun fd c e' hc => ?_, fun x hx => ?_, ?_, h.running⟩, fun g hg => ?_⟩
    · by_cases hfd : i = fd
      · subst hfd
        obtain rfl : c = ctx' := by
          have hlt := (List.getElem?_eq_some_iff.mp hctx).1
          exact Option.some.inj (hc.symm.trans (List.getElem?_set_self hlt))
        rw [hget]
        by_cases he : e = e'
        · rw [if_pos he]
          exact .inl rfl
        · rw [if_neg he]
          exact hkeeps (fun _ => Ne.symm he) (h.slots i ctx e' hctx)
      · have hold : s.events.contexts[fd]? = some c := (List.getElem?_set_ne hfd).symm.trans hc
        exact hkeeps (fun heq => absurd heq.symm hfd) (h.slots fd c e' hold)
    · rcases List.mem_append.mp hx with hx | hx
      · exact h.queued x hx
      · exact ⟨f, i, e, List.mem_singleton.mp hx, hwaits⟩
    · refine List.nodup_append.mpr ⟨h.nodup, List.nodup_singleton _, fun x hx y hy heq => hnot ?_⟩
      rw [← List.mem_singleton.mp hy, ← heq]
      exact hx
    · rcases List.mem_append.mp hg with hg | hg
      · exact .inl hg
      · obtain rfl : g = f := entry_inj (List.mem_singleton.mp hg)
        exact .inr ⟨i, e, hwaits, rfl, rfl⟩

theorem Slots.triggerAll (h : s.Slots) {mask : Events} (ht : s.events.triggerAll i mask = .ok events) :
    WakesOnly s events fun fd _ => fd = i := by
  rw [Descriptors.triggerAll_eq] at ht
  obtain ⟨u, hu, ht⟩ := Lib.Run.bind_eq_ok.mp ht
  have hfirst : WakesOnly s u fun fd _ => fd = i := by
    split at hu
    · exact (h.trigger hu).mono fun _ _ hit => hit.1
    · obtain rfl := Except.ok.inj hu
      exact h.keep rfl rfl
  refine hfirst.trans ?_
  split at ht
  · exact (hfirst.slots.trigger ht).mono fun _ _ hit => hit.1
  · obtain rfl := Except.ok.inj ht
    exact hfirst.slots.keep rfl rfl

theorem Slots.dispatch (h : s.Slots) {r : Report} (hr : s.events.dispatch r = .ok events) :
    WakesOnly s events fun fd _ => ∃ mask, r = .ready fd mask := by
  unfold Descriptors.dispatch at hr
  split at hr
  · obtain rfl := Except.ok.inj hr
    exact h.keep rfl rfl
  · rename_i i mask
    split at hr
    · cases hr
    · dsimp only at hr
      split at hr
      · obtain rfl := Except.ok.inj hr
        exact h.keep rfl rfl
      · split at hr
        · obtain rfl := Except.ok.inj hr
          exact h.keep rfl rfl
        · rename_i epoll _
          have hepoll : WakesOnly s { s.events with epoll } fun fd _ => fd = i := h.keep rfl rfl
          exact (hepoll.trans (hepoll.slots.triggerAll hr)).mono fun fd _ heq => ⟨mask, by rw [heq]⟩

theorem Slots.cancelEventOf (h : s.Slots) {r : Bool × Descriptors n} (hr : s.events.cancelEvent fd e = .ok r) :
    WakesOnly s r.2 fun fd' e' => fd' = fd ∧ e' = e := by
  unfold Descriptors.cancelEvent at hr
  split at hr
  · obtain rfl := Except.ok.inj hr
    exact h.keep rfl rfl
  · split at hr
    · dsimp only at hr
      split at hr
      · obtain rfl := Except.ok.inj hr
        exact h.keep rfl rfl
      · rename_i epoll _
        obtain ⟨u, hu, rfl⟩ := Descriptors.map_ok.mp hr
        have hepoll : WakesOnly s { s.events with epoll } fun fd' e' => fd' = fd ∧ e' = e := h.keep rfl rfl
        exact hepoll.trans (hepoll.slots.trigger hu)
    · obtain rfl := Except.ok.inj hr
      exact h.keep rfl rfl

theorem Slots.cancelAllOf (h : s.Slots) {r : Bool × Descriptors n} (hr : s.events.cancelAll fd = .ok r) :
    WakesOnly s r.2 fun fd' _ => fd' = fd := by
  unfold Descriptors.cancelAll at hr
  split at hr
  · obtain rfl := Except.ok.inj hr
    exact h.keep rfl rfl
  · split at hr
    · obtain rfl := Except.ok.inj hr
      exact h.keep rfl rfl
    · split at hr
      · obtain rfl := Except.ok.inj hr
        exact h.keep rfl rfl
      · rename_i epoll _
        obtain ⟨u, hu, rfl⟩ := Descriptors.map_ok.mp hr
        have hepoll : WakesOnly s { s.events with epoll } fun fd' _ => fd' = fd := h.keep rfl rfl
        exact hepoll.trans (hepoll.slots.triggerAll hu)

/-! ### The fibers -/

/-- The fiber waits for nothing. -/
def Awake (s : Hook m n) (f : Fin m) : Prop := ∀ fd e, ¬s.WaitsOn f fd e

theorem awake (h : s.tasks f = .io c) (hpc : c.pc.waits = false) : s.Awake f := by
  rintro fd e ⟨d, hd, -, -, hwaits⟩
  obtain rfl := Task.io.inj (h.symm.trans hd)
  rw [hpc] at hwaits
  cases hwaits

theorem awake_of_ne (h : ∀ c, s.tasks f ≠ .io c) : s.Awake f := by
  rintro fd e ⟨d, hd, -⟩
  exact h d hd

theorem awake_of_free (h : (s.tasks f).free = true) : s.Awake f := by
  refine awake_of_ne fun c hc => ?_
  rw [hc] at h
  cases h

/-- The queue of the scheduler does not hold a fiber that waits for nothing. -/
theorem Slots.not_scheduled (h : s.Slots) (hf : s.Awake f) : entry f ∉ s.events.scheduled := by
  intro hin
  obtain ⟨g, fd, e, heq, hg⟩ := h.queued _ hin
  obtain rfl := entry_inj heq
  exact hf fd e hg

theorem WaitsOn.setTask (h : s.WaitsOn g fd e) (hf : s.Awake f) : (s.setTask f task).WaitsOn g fd e := by
  obtain ⟨c, hc, hrest⟩ := h
  refine ⟨c, (setTask_of_ne ?_).trans hc, hrest⟩
  rintro rfl
  exact hf fd e ⟨c, hc, hrest⟩

theorem Slots.setTask (h : s.Slots) (hf : s.Awake f) : (s.setTask f task).Slots :=
  h.of rfl rfl (fun _ _ _ hw => hw.setTask hf) h.running

theorem cancelled_of_append {infos : List TimerInfo} (h : s.cancelled k = true) : Hook.cancelled { s with infos := s.infos ++ infos } k = true := by
  obtain ⟨i, hi, hc⟩ := (Option.any_eq_true _ _).mp h
  refine (Option.any_eq_true _ _).mpr ⟨i, ?_, hc⟩
  exact (List.getElem?_append_left (List.getElem?_eq_some_iff.mp hi).1).trans hi

theorem cancelled_of_modify {l : Nat} (h : s.cancelled k = true) :
    Hook.cancelled { s with infos := s.infos.modify l fun i => { i with cancelled := true } } k = true := by
  obtain ⟨i, hi, hc⟩ := (Option.any_eq_true _ _).mp h
  by_cases hl : l = k
  · subst hl
    refine (Option.any_eq_true _ _).mpr ⟨{ i with cancelled := true }, ?_, rfl⟩
    dsimp only
    rw [List.getElem?_modify_eq, hi]
    rfl
  · exact (Option.any_eq_true _ _).mpr ⟨i, (List.getElem?_modify_ne _ _ hl).trans hi, hc⟩

theorem cancelled_drop {k l : Nat} : (s.drop k).cancelled l = s.cancelled l := by
  unfold cancelled drop
  by_cases hk : k = l
  · subst hk
    rw [List.getElem?_modify_eq]
    cases s.infos[k]? <;> rfl
  · rw [List.getElem?_modify_ne _ _ hk]

theorem Slots.drop (h : s.Slots) (k : Nat) : (s.drop k).Slots :=
  h.of rfl rfl (fun _ _ _ => id) fun cb hcb => cancelled_drop.trans (h.running cb hcb)

/-! ### Registration -/

theorem Slots.grow (h : s.Slots) (fd : Nat) : Slots { s with events := s.events.grow fd } := by
  unfold Descriptors.grow
  split
  · exact h
  · rename_i hfd
    refine ⟨fun i ctx e hctx => ?_, h.queued, h.nodup, h.running⟩
    rw [Descriptors.contextResize_eq (by omega)] at hctx
    rcases Lib.Count.getElem?_grow hctx with hctx | ⟨rfl, -⟩
    · exact h.slots i ctx e hctx
    · cases e <;> exact .inl rfl

/-- An event is added for a fiber, which then waits for it. -/
theorem Slots.addEventOf (task : Task) {refused ok : Bool} (h : s.Slots) (hf : s.Awake f)
    (hadd : s.events.addEvent fd e (some 0) f.val none refused = .ok (ok, events))
    (htask : ok = true → (s.setTask f task).WaitsOn f fd e) :
    Slots (Hook.setTask { s with events } f task) ∧ events.scheduled = s.events.scheduled := by
  have hgrow : Slots (Hook.setTask { s with events := s.events.grow fd } f task) := (h.grow fd).setTask hf
  have hscheduled : (s.events.grow fd).scheduled = s.events.scheduled := by
    unfold Descriptors.grow
    split <;> rfl
  unfold Descriptors.addEvent at hadd
  dsimp only at hadd
  split at hadd
  · cases hadd
  · rename_i ctx hctx
    split at hadd
    · cases hadd
    · split at hadd
      · obtain ⟨rfl, rfl⟩ := Prod.mk.inj (Except.ok.inj hadd)
        exact ⟨hgrow, hscheduled⟩
      · split at hadd
        · obtain ⟨rfl, rfl⟩ := Prod.mk.inj (Except.ok.inj hadd)
          refine ⟨⟨fun i c e' hc => ?_, hgrow.queued, hgrow.nodup, hgrow.running⟩, hscheduled⟩
          by_cases hi : fd = i
          · subst hi
            obtain rfl := Option.some.inj (hc.symm.trans (List.getElem?_set_self (List.getElem?_eq_some_iff.mp hctx).1))
            rw [FdContext.getContext_setContext]
            by_cases he : e = e'
            · subst he
              rw [if_pos rfl]
              refine .inr ⟨f, rfl, htask rfl, ?_⟩
              exact hscheduled ▸ h.not_scheduled hf
            · rw [if_neg he]
              exact hgrow.slots fd ctx e' hctx
          · exact hgrow.slots i c e' ((List.getElem?_set_ne hi).symm.trans hc)
        · cases hadd

/-! ### Every step -/

/-- Whom a step may wake. -/
def Woken (s : Hook m n) : Act m n → Nat → Event → Prop
  | .close _ fd' _, fd, _ => fd = fd'
  | .cancelEvent j _, fd, e => ∃ cb, s.running[j]? = some cb ∧ fd = cb.fd ∧ e = cb.event
  | .dispatch w, fd, _ => ∃ mask rest, s.events.reports w = .ready fd mask :: rest
  | _, _, _ => False

/-- The places stay in order, and the step wakes only whom it may. -/
structure Step (s : Hook m n) (a : Act m n) (t : Hook m n) : Prop where
  slots : t.Slots
  woken : ∀ f, entry f ∈ t.events.scheduled → entry f ∈ s.events.scheduled ∨ ∃ fd e, s.WaitsOn f fd e ∧ s.Woken a fd e

/-- A step that wakes nobody. -/
theorem Step.quiet (h : t.Slots) (hscheduled : ∀ x ∈ t.events.scheduled, x ∈ s.events.scheduled) : Step s a t :=
  ⟨h, fun _ hf => .inl (hscheduled _ hf)⟩

theorem WakesOnly.step (h : WakesOnly s events hit) (hhit : ∀ fd e, hit fd e → s.Woken a fd e) (hslots : t.Slots)
    (hevents : t.events = events) : Step s a t :=
  ⟨hslots, fun f hf => (h.woken f (hevents ▸ hf)).imp_right fun ⟨fd, e, hw, he⟩ => ⟨fd, e, hw, hhit fd e he⟩⟩

theorem Slots.doIo {accept : Bool} (h : s.Slots) (hfree : (s.tasks f).free = true) : Step s a (s.doIo f fd e accept) := by
  have hf := awake_of_free hfree
  rcases doIo_cases s f fd e accept with heq | heq | ⟨timeout, heq⟩
  · rw [heq]
    exact .quiet (h.setTask hf) fun _ => id
  · rw [heq]
    exact .quiet (h.setTask hf) fun _ => id
  · rw [heq]
    refine .quiet (h.of rfl rfl (fun _ _ _ hw => ?_) fun cb hcb => cancelled_of_append (h.running cb hcb)) fun _ => id
    exact hw.setTask (s := { s with infos := s.infos ++ [⟨false, true⟩] }) hf

theorem Slots.finish {closed : Bool} {r : SysResult} (h : s.Slots) (hf : s.Awake f) : Step s a (s.finish f closed r) := by
  rcases finish_cases s f closed r with ⟨k, heq⟩ | ⟨fd, fds, heq⟩
  · rw [heq]
    exact .quiet (h.setTask hf) fun _ => id
  · rw [heq]
    exact .quiet (h.of rfl rfl (fun _ _ _ hw => hw.setTask (s := { s with fds }) hf) h.running) fun _ => id

theorem Slots.issue {r : SysResult} (h : s.Slots) (hs : s.issue f r = some t) : Step s a t := by
  rcases issue_cases hs with ⟨fd, accept, closed, htask, rfl⟩ | ⟨c, hc, hpc, rfl | rfl | rfl⟩
  · refine h.finish (awake_of_ne fun c hc => ?_)
    rw [htask] at hc
    cases hc
  · exact .quiet h fun _ => id
  · exact .quiet (h.setTask (awake hc (by rw [hpc]; rfl))) fun _ => id
  · have hf : s.Awake f := awake hc (by rw [hpc]; rfl)
    have hstep : Step (s.drop c.info) a ((s.drop c.info).finish f c.closed r) := (h.drop c.info).finish hf
    exact ⟨hstep.slots, hstep.woken⟩

theorem Slots.arm (h : s.Slots) (hs : s.arm f addr now = some t) : Step s a t := by
  obtain ⟨c, hc, hpc, ⟨-, -, rfl⟩ | ⟨-, rfl⟩⟩ := arm_cases hs
  · refine .quiet (h.of rfl rfl (fun _ _ _ hw => hw.setTask ?_) h.running) fun _ => id
    exact awake hc (by rw [hpc]; rfl)
  · exact .quiet (h.setTask (awake hc (by rw [hpc]; rfl))) fun _ => id

theorem Slots.addEvent {refused : Bool} (h : s.Slots) (hs : s.addEvent f refused = some t) : Step s a t := by
  obtain ⟨c, ok, events, hc, hpc, hadd, ⟨rfl, rfl⟩ | ⟨timers, rfl, -, rfl⟩⟩ := addEvent_cases hs
  all_goals
    have hf : s.Awake f := awake hc (by rw [hpc]; rfl)
  · obtain ⟨hslots, hscheduled⟩ := h.addEventOf (.io { c with pc := .registered }) hf hadd fun _ => ⟨_, setTask_self, rfl, rfl, rfl⟩
    exact .quiet hslots fun x hx => hscheduled ▸ hx
  · obtain ⟨hslots, hscheduled⟩ := h.addEventOf (.returned none c.closed) hf hadd nofun
    refine .quiet (hslots.of rfl rfl (fun _ _ _ => id) fun cb hcb => ?_) fun x hx => hscheduled ▸ hx
    exact cancelled_drop.trans (h.running cb hcb)

theorem Slots.yield (h : s.Slots) (hs : s.yield f = some t) : Step s a t := by
  obtain ⟨c, hc, hpc, rfl⟩ := yield_cases hs
  refine .quiet (h.of rfl rfl (fun g fd e hw => ?_) h.running) fun _ => id
  by_cases hg : g = f
  · subst hg
    obtain ⟨d, hd, hfd, he, -⟩ := hw
    obtain rfl := Task.io.inj (hc.symm.trans hd)
    exact ⟨_, setTask_self, hfd, he, rfl⟩
  · obtain ⟨d, hd, hrest⟩ := hw
    exact ⟨d, (setTask_of_ne hg).trans hd, hrest⟩

theorem resume_scheduled (h : s.resume f = some t) : entry f ∈ s.events.scheduled := by
  unfold Hook.resume at h
  split at h
  · split at h
    · rename_i hin
      exact hin.2
    · cases h
  · cases h

/-- The entry of the fiber is taken out of the queue, where it stood once. -/
theorem Slots.resume (h : s.Slots) (hs : s.resume f = some t) : Step s a t := by
  obtain ⟨c, hc, hpc, rfl⟩ := resume_cases hs
  have hother : ∀ {g fd e}, g ≠ f → s.WaitsOn g fd e → WaitsOn (Hook.setTask { s with
      events := { s.events with scheduled := s.events.scheduled.erase (entry f) } } f (.io { c with pc := .resumed })) g fd e := by
    rintro g fd e hg ⟨d, hd, hrest⟩
    exact ⟨d, (setTask_of_ne hg).trans hd, hrest⟩
  refine .quiet ⟨fun fd ctx e hctx => ?_, fun x hx => ?_, h.nodup.erase _, h.running⟩ fun x hx => List.mem_of_mem_erase hx
  · rcases h.slots fd ctx e hctx with hempty | ⟨g, hec, hg, hnot⟩
    · exact .inl hempty
    · by_cases hgf : g = f
      · obtain rfl := hgf
        exact absurd (resume_scheduled hs) hnot
      · exact .inr ⟨g, hec, hother hgf hg, fun hin => hnot (List.mem_of_mem_erase hin)⟩
  · obtain ⟨hne, hmem⟩ := h.nodup.mem_erase_iff.mp hx
    obtain ⟨g, fd, e, rfl, hg⟩ := h.queued x hmem
    exact ⟨g, fd, e, rfl, hother (fun heq => hne (by rw [heq])) hg⟩

theorem Slots.close {refused : Bool} (h : s.Slots) (hs : s.close f fd refused = some t) : Step s (.close f fd refused) t := by
  obtain ⟨hfree, rfl | ⟨ok, events, hr, rfl⟩⟩ := close_cases hs
  · exact .quiet (h.setTask (awake_of_free hfree)) fun _ => id
  · have hwakes := h.cancelAllOf hr
    exact hwakes.step (fun _ _ hfd => hfd) (hwakes.slots.setTask (awake_of_free hfree)) rfl

/-- The calls on the descriptor are marked, and wait as before. -/
theorem Slots.closeFd (h : s.Slots) (hs : s.closeFd f = some t) : Step s a t := by
  obtain ⟨fd, htask, rfl⟩ := closeFd_cases hs
  refine .quiet (h.of rfl rfl (fun g i e hw => ?_) h.running) fun _ => id
  obtain ⟨c, hc, hrest⟩ := hw
  refine ⟨{ c with closed := c.closed || c.fd = fd }, ?_, hrest⟩
  have hg : g ≠ f := by
    rintro rfl
    rw [htask] at hc
    cases hc
  have hclose : (s.tasks g).close fd = .io { c with closed := c.closed || c.fd = fd } := congrArg (Task.close fd) hc
  exact (Function.update_of_ne hg _ fun g => (s.tasks g).close fd).trans hclose

theorem Slots.fire (h : s.Slots) (hs : s.fire j = some t) : Step s a t := by
  obtain ⟨cb, -, ⟨hwaits, rfl⟩ | ⟨-, rfl⟩⟩ := fire_cases hs
  · refine .quiet (h.of rfl rfl (fun _ _ _ => id) fun x hx => ?_) fun _ => id
    rcases List.mem_append.mp hx with hx | hx
    · exact cancelled_of_modify (h.running x hx)
    · obtain rfl := List.mem_singleton.mp hx
      obtain ⟨i, hi, -⟩ := (Option.any_eq_true _ _).mp hwaits
      refine (Option.any_eq_true _ _).mpr ⟨{ i with cancelled := true }, ?_, rfl⟩
      dsimp only
      rw [List.getElem?_modify_eq, hi]
      rfl
  · exact .quiet (h.of rfl rfl (fun _ _ _ => id) h.running) fun _ => id

theorem Slots.cancelEvent {refused : Bool} (h : s.Slots) (hs : s.cancelEvent j refused = some t) : Step s (.cancelEvent j refused) t := by
  obtain ⟨cb, hcb, hcases⟩ := cancelEvent_cases hs
  have hfewer : ∀ x ∈ s.running.eraseIdx j, s.cancelled x.info = true := fun x hx => h.running x (List.mem_of_mem_eraseIdx hx)
  rcases hcases with ⟨-, rfl⟩ | ⟨ok, events, -, hr, rfl⟩
  · exact .quiet (h.of rfl rfl (fun _ _ _ => id) hfewer) fun _ => id
  · have hwakes := h.cancelEventOf hr
    exact hwakes.step (fun _ _ hhit => ⟨cb, hcb, hhit⟩) (hwakes.slots.of rfl rfl (fun _ _ _ => id) hfewer) rfl

theorem Slots.worker {w : Fin n} (h : s.Slots) (hs : s.events.step (.dispatch w) = some events) :
    Step s (.dispatch w) { s with events } := by
  unfold Descriptors.step at hs
  dsimp only at hs
  split at hs
  · cases hs
  · rename_i r rest hreports
    have hread : WakesOnly s { s.events with reports := Function.update s.events.reports w rest } fun fd _ => ∃ mask, r = .ready fd mask :=
      h.keep rfl rfl
    have hwakes := hread.trans (hread.slots.dispatch (Descriptors.toOption_eq_some.mp hs))
    refine hwakes.step (fun fd _ ⟨mask, hr⟩ => ⟨mask, rest, ?_⟩) hwakes.slots rfl
    rw [hreports, hr]

theorem Slots.step (h : s.Slots) (hs : s.step a = some t) : Step s a t := by
  cases a with
  | doIo f fd event accept =>
    obtain ⟨hfree, heq⟩ := Option.ite_none_right_eq_some.mp hs
    obtain rfl := Option.some.inj heq
    exact h.doIo hfree
  | issue f r => exact h.issue hs
  | arm f addr now => exact h.arm hs
  | addEvent f refused => exact h.addEvent hs
  | yield f => exact h.yield hs
  | resume f => exact h.resume hs
  | cancelTimer f =>
    obtain ⟨c, timers, hc, hpc, -, rfl⟩ := cancelTimer_cases hs
    have hf : s.Awake f := awake hc (by rw [hpc]; rfl)
    exact .quiet (h.of rfl rfl (fun _ _ _ hw => hw.setTask (s := { s with timers }) hf) h.running) fun _ => id
  | check f =>
    obtain ⟨c, hc, hpc, ⟨-, rfl⟩ | ⟨-, rfl⟩⟩ := check_cases hs
    all_goals
      have hf : s.Awake f := awake hc (by rw [hpc]; rfl)
    · exact .quiet ((h.drop c.info).setTask hf) fun _ => id
    · exact .quiet (h.setTask hf) fun _ => id
  | context f =>
    obtain ⟨fd, htask, rfl⟩ := context_cases hs
    have hf : s.Awake f := awake_of_ne fun c hc => by rw [htask] at hc; cases hc
    exact .quiet (h.of rfl rfl (fun _ _ _ hw => hw.setTask (s := { s with fds := s.fds.getCreate fd }) hf) h.running) fun _ => id
  | close f fd refused => exact h.close hs
  | closeFd f => exact h.closeFd hs
  | onFd a =>
    obtain ⟨fds, rfl⟩ := onFd_cases hs
    exact .quiet (h.of rfl rfl (fun _ _ _ => id) h.running) fun _ => id
  | expire probe now =>
    obtain ⟨-, rfl⟩ := expire_cases hs
    exact .quiet (h.of rfl rfl (fun _ _ _ => id) h.running) fun _ => id
  | fire j => exact h.fire hs
  | cancelEvent j refused => exact h.cancelEvent hs
  | wait w reports =>
    obtain ⟨events, hevents, rfl⟩ := Option.map_eq_some_iff.mp hs
    obtain ⟨-, heq⟩ := Option.ite_none_right_eq_some.mp hevents
    obtain rfl := Option.some.inj heq
    exact .quiet (h.of rfl rfl (fun _ _ _ => id) h.running) fun _ => id
  | dispatch w =>
    obtain ⟨events, hevents, rfl⟩ := Option.map_eq_some_iff.mp hs
    exact h.worker hevents

theorem slots_init (files : Nat → Option File) (now : Nat) : Slots (init files now : Hook m n) where
  slots fd ctx e hctx := by
    have hnew : ([] ++ (List.range 32).map fun k => FdContext.new (([] : List FdContext).length + k))[fd]? = some ctx := hctx
    rcases Lib.Count.getElem?_grow hnew with hnil | ⟨rfl, -⟩
    · cases hnil
    · cases e <;> exact .inl rfl
  queued _ hx := by cases hx
  nodup := .nil
  running _ hcb := by cases hcb

end Hook
end MyHttp

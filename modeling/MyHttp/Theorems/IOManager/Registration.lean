import MyHttp.Theorems.IOManager.Dispatch
import MyHttp.Theorems.IOManager.TableGrowth

/-! What is registered, what `epoll` is armed with, what is pending, and who waits: all of it agrees along every run in
    which the table grows and events are added by threads of a scheduler. -/

namespace MyHttp
namespace IOManager

open Lib.Run Lib.Count
open Scheduler (Work CallbackId)

/-! ### One body -/

/-- A scheduled waiter as it was added. -/
def asAdded (x : SchedulerId × Work) : Option SchedulerId × Work := (some x.1, x.2)

/-- Who waits in a context. -/
def FdContext.entries (ctx : FdContext) : List (Option SchedulerId × Work) :=
  ctx.read.entry.toList ++ ctx.write.entry.toList

namespace FdContext

variable {ctx : FdContext} {e : Event} {ec : EventContext} {m : Events} {w : Option SchedulerId × Work}

theorem entries_add (h : ctx.getContext e = .empty) :
    ({ ctx with events := ctx.events.add e }.setContext e ec).entries.count w =
      ctx.entries.count w + ec.entry.toList.count w := by
  have hempty : EventContext.empty.entry = none := rfl
  cases e <;> simp only [getContext] at h <;> simp [entries, setContext, h, hempty, Nat.add_comm]

theorem entries_clear (ctx : FdContext) (e : Event) (w : Option SchedulerId × Work) :
    (ctx.clear e).entries.count w + (ctx.getContext e).entry.toList.count w = ctx.entries.count w := by
  have hempty : EventContext.empty.entry = none := rfl
  cases e <;> simp [entries, clear, setContext, getContext, hempty, Nat.add_comm]

/-- Who is scheduled is who waits. -/
theorem Sound.waiter_entry (h : ctx.Sound) (hs : ctx.Serves e) :
    (ctx.getContext e).waiter.toList.map asAdded = (ctx.getContext e).entry.toList := by
  obtain ⟨sc, hsc⟩ := Option.isSome_iff_exists.mp hs.2
  rcases h.waits e hs.1 with ⟨c, hcb, hf⟩ | ⟨f, hcb, hf⟩ <;>
    simp [EventContext.waiter, EventContext.entry, hsc, hcb, hf, asAdded]

theorem Sound.entries_clearAll (h : ctx.Sound) (hm : ∀ e, m.has e = true → ctx.Serves e) :
    (ctx.clearAll m).entries.count w + ((ctx.waiters m).map asAdded).count w = ctx.entries.count w := by
  have hone : ∀ e, m.has e = true → ((ctx.getContext e).waiter.toList.map asAdded).count w =
      (ctx.getContext e).entry.toList.count w := fun e he => by rw [h.waiter_entry (hm e he)]
  have hread := entries_clear ctx .read w
  have hwrite := entries_clear ctx .write w
  obtain ⟨r, w'⟩ := m
  cases r <;> cases w'
  · simp [FdContext.clearAll, waiters]
  · rw [← hone .write rfl] at hwrite
    simpa [FdContext.clearAll, waiters, getContext] using hwrite
  · rw [← hone .read rfl] at hread
    simpa [FdContext.clearAll, waiters, getContext] using hread
  · have hboth := entries_clear (ctx.clear .read) .write w
    rw [getContext_clear_ne Event.noConfusion, ← hone .write rfl] at hboth
    rw [← hone .read rfl] at hread
    simp only [FdContext.clearAll, waiters, if_true, List.map_append, List.count_append]
    simp only [getContext] at hboth hread
    omega

theorem served_clearAll (h : ∀ e, ctx.events.has e = true → ctx.Serves e) :
    ∀ e, (ctx.clearAll m).events.has e = true → (ctx.clearAll m).Serves e := fun e he => by
  refine ⟨he, ?_⟩
  rw [clearAll_events, Events.has_diff, Bool.and_eq_true] at he
  rw [getContext_clearAll (by simpa using he.2)]
  exact (h e he.1).2

theorem served_clear (h : ∀ e, ctx.events.has e = true → ctx.Serves e) {e : Event} :
    ∀ e', (ctx.clear e).events.has e' = true → (ctx.clear e).Serves e' := fun e' he => by
  have he' := he
  rw [clear, setContext_events, Events.has_remove, Bool.and_eq_true] at he'
  have hne : e ≠ e' := by simpa using he'.2
  exact (serves_clear_ne hne).mpr (h e' he'.1)

end FdContext

namespace Body

variable {b b' : Body} {e : Event} {m : Events} {refused ok : Bool} {fd : Nat}

/-- What a body finds. -/
structure Ready (b : Body) : Prop where
  sound : b.ctx.Sound
  served : ∀ e, b.ctx.events.has e = true → b.ctx.Serves e
  epoll : b.epoll b.ctx.fd = b.ctx.events.armed
  pending : b.ctx.events.card ≤ b.pendingEventCount

/-- What a body leaves, against what it has found. -/
structure Kept (b b' : Body) : Prop where
  sound : b'.ctx.Sound
  served : ∀ e, b'.ctx.events.has e = true → b'.ctx.Serves e
  fd : b'.ctx.fd = b.ctx.fd
  epoll : b'.epoll = Function.update b.epoll b.ctx.fd b'.ctx.events.armed
  pending : b'.pendingEventCount + b.ctx.events.card = b.pendingEventCount + b'.ctx.events.card
  waiters : ∀ w, b'.added.count w + b.ctx.entries.count w + (b.scheduled.map asAdded).count w + b.discarded.count w =
    b.added.count w + b'.ctx.entries.count w + (b'.scheduled.map asAdded).count w + b'.discarded.count w

theorem Ready.kept (h : Ready b) : Kept b b := by
  refine ⟨h.sound, h.served, rfl, ?_, rfl, fun _ => rfl⟩
  rw [← h.epoll, Function.update_eq_self]

theorem trigger_eq (h : b.ctx.Sound) (hs : b.ctx.Serves e) :
    b.trigger e = .ok { b with
      ctx := b.ctx.clear e
      scheduled := b.scheduled ++ (b.ctx.getContext e).waiter.toList
      pendingEventCount := b.pendingEventCount - 1 } := by
  rw [Body.trigger, h.triggerEvent_iff.mpr ⟨hs, rfl⟩]
  rfl

theorem triggerAll_eq (h : b.ctx.Sound) (hm : ∀ e, m.has e = true → b.ctx.Serves e) :
    b.triggerAll m = .ok { b with
      ctx := b.ctx.clearAll m
      scheduled := b.scheduled ++ b.ctx.waiters m
      pendingEventCount := b.pendingEventCount - m.card } := by
  obtain ⟨r, w⟩ := m
  have hread : r = true → b.trigger .read = _ := fun hr => trigger_eq h (hm .read hr)
  have hwrite : w = true → ∀ b' : Body, b'.ctx = b.ctx ∨ b'.ctx = b.ctx.clear .read → b'.trigger .write = .ok { b' with
      ctx := b'.ctx.clear .write
      scheduled := b'.scheduled ++ b.ctx.write.waiter.toList
      pendingEventCount := b'.pendingEventCount - 1 } := by
    rintro hw b' (hctx | hctx)
    · rw [trigger_eq (hctx ▸ h) (hctx ▸ hm .write hw), hctx]
      rfl
    · rw [trigger_eq (hctx ▸ h.clear .read) (hctx ▸ (FdContext.serves_clear_ne Event.noConfusion).mpr (hm .write hw)),
        hctx, FdContext.getContext_clear_ne Event.noConfusion]
      rfl
  unfold triggerAll
  cases r <;> cases w <;> refine Lib.Run.bind_eq_ok.mpr ?_
  · exact ⟨b, rfl, by simp [FdContext.clearAll, FdContext.waiters, Events.card]⟩
  · exact ⟨b, rfl, (hwrite rfl b (Or.inl rfl)).trans rfl⟩
  · exact ⟨_, hread rfl, by simp [FdContext.clearAll, FdContext.waiters, Events.card, FdContext.getContext]⟩
  · refine ⟨_, hread rfl, (hwrite rfl _ (Or.inr rfl)).trans ?_⟩
    simp [FdContext.clearAll, FdContext.waiters, Events.card, FdContext.getContext, Nat.sub_sub]

/-- Taking the events of a mask out, the rest armed again. -/
theorem Ready.triggerAll (h : Ready b) (hm : ∀ e, m.has e = true → b.ctx.Serves e)
    (hr : ({ b with epoll := Function.update b.epoll b.ctx.fd (b.ctx.events.diff m).armed } : Body).triggerAll m =
      .ok b') : Kept b b' := by
  have heq := triggerAll_eq (b := { b with epoll := Function.update b.epoll b.ctx.fd (b.ctx.events.diff m).armed })
    h.sound hm
  rw [heq] at hr
  obtain rfl := Except.ok.inj hr
  have hcard := Events.card_diff fun e he => (hm e he).1
  have hle := h.pending
  refine ⟨h.sound.clearAll m, FdContext.served_clearAll h.served, FdContext.clearAll_fd, ?_, ?_, fun w => ?_⟩
  · rw [FdContext.clearAll_events]
  · rw [FdContext.clearAll_events]
    dsimp only
    omega
  · have hentries := h.sound.entries_clearAll (w := w) hm
    simp only [List.map_append, List.count_append]
    omega

/-- Taking one event out. -/
theorem Ready.clear (h : Ready b) (he : b.ctx.events.has e = true) (hctx : b'.ctx = b.ctx.clear e)
    (hepoll : b'.epoll = Function.update b.epoll b.ctx.fd (b.ctx.events.remove e).armed)
    (hpending : b'.pendingEventCount = b.pendingEventCount - 1)
    (hwaiters : ∀ w, b'.added.count w + (b.ctx.getContext e).entry.toList.count w + (b.scheduled.map asAdded).count w +
      b.discarded.count w = b.added.count w + (b'.scheduled.map asAdded).count w + b'.discarded.count w) :
    Kept b b' := by
  have hevents : (b.ctx.clear e).events = b.ctx.events.remove e := by rw [FdContext.clear, FdContext.setContext_events]
  have hcard := Events.card_remove he
  have hle := h.pending
  refine ⟨?_, ?_, ?_, ?_, ?_, fun w => ?_⟩ <;> rw [hctx]
  · exact h.sound.clear e
  · exact FdContext.served_clear h.served
  · simp [FdContext.clear]
  · rw [hevents, hepoll]
  · rw [hevents, hpending]
    omega
  · have hentries := FdContext.entries_clear b.ctx e w
    have := hwaiters w
    omega

theorem Ready.addEvent (h : Ready b) (hfd : fd = b.ctx.fd) {caller : Option SchedulerId} {fiber : FiberId}
    {cb : Option CallbackId} (hcaller : caller.isSome = true)
    (hr : b.addEvent fd e caller fiber cb refused = .ok (ok, b')) : Kept b b' ∧ (ok = false → b' = b) := by
  subst hfd
  unfold Body.addEvent at hr
  by_cases hreg : b.ctx.events.has e = true
  · rw [if_pos hreg] at hr
    cases hr
  have hempty : b.ctx.getContext e = .empty := h.sound.empty e (Bool.eq_false_iff.mpr hreg)
  rw [if_neg hreg] at hr
  cases refused with
  | true =>
    cases hr
    exact ⟨h.kept, fun _ => rfl⟩
  | false =>
    simp only [ctl, Bool.false_eq_true, if_false, epollCtl_add h.epoll, hempty, if_true] at hr
    have hwaits : (EventContext.of caller fiber cb).Waits := by
      cases cb with
      | some c => exact Or.inl ⟨c, rfl, rfl⟩
      | none => exact Or.inr ⟨fiber, rfl, rfl⟩
    have hscheduler : (EventContext.of caller fiber cb).scheduler = caller := by
      cases cb <;> rfl
    cases hr
    refine ⟨⟨h.sound.add hwaits, fun e' he' => ?_, by simp, by simp, ?_, fun w => ?_⟩, Bool.noConfusion⟩
    · refine ⟨he', ?_⟩
      rw [FdContext.getContext_setContext]
      split_ifs with hee
      · rw [hscheduler]
        exact hcaller
      · rw [FdContext.setContext_events, Events.has_add] at he'
        exact (h.served e' (by simpa [hee] using he')).2
    · simp only [FdContext.setContext_events, Events.card_add (Bool.eq_false_iff.mpr hreg)]
      omega
    · dsimp only
      rw [FdContext.entries_add hempty, List.count_append]
      omega

theorem Ready.ctl_left (h : Ready b) (hne : b.ctx.events ≠ .none) :
    epollCtl b.epoll (if m = .none then .del else .mod) b.ctx.fd m = some (Function.update b.epoll b.ctx.fd m.armed) :=
  epollCtl_left h.epoll hne

theorem ne_none_of_has (h : b.ctx.events.has e = true) : b.ctx.events ≠ .none := fun hnone => by
  rw [hnone, Events.has_none] at h
  cases h

theorem Ready.delEvent (h : Ready b) (hfd : fd = b.ctx.fd) :
    Kept b (b.delEvent fd e refused).2 ∧ ((b.delEvent fd e refused).1 = false → (b.delEvent fd e refused).2 = b) := by
  subst hfd
  unfold Body.delEvent
  by_cases hreg : b.ctx.events.has e = true
  · rw [if_pos hreg]
    cases refused with
    | true => exact ⟨h.kept, fun _ => rfl⟩
    | false =>
      simp only [ctl, Bool.false_eq_true, if_false, h.ctl_left (ne_none_of_has hreg)]
      refine ⟨h.clear hreg rfl rfl rfl fun w => ?_, Bool.noConfusion⟩
      dsimp only
      rw [List.count_append]
      omega
  · rw [if_neg hreg]
    exact ⟨h.kept, fun _ => rfl⟩

theorem Ready.cancelEvent (h : Ready b) (hfd : fd = b.ctx.fd) (hr : b.cancelEvent fd e refused = .ok (ok, b')) :
    Kept b b' ∧ (ok = false → b' = b) := by
  subst hfd
  unfold Body.cancelEvent at hr
  by_cases hreg : b.ctx.events.has e = true
  · rw [if_pos hreg] at hr
    cases refused with
    | true =>
      cases hr
      exact ⟨h.kept, fun _ => rfl⟩
    | false =>
      simp only [ctl, Bool.false_eq_true, if_false, h.ctl_left (ne_none_of_has hreg)] at hr
      obtain ⟨b₁, hb₁, heq⟩ := Descriptors.map_ok.mp hr
      obtain ⟨rfl, rfl⟩ := Prod.mk.inj heq
      have htrigger := trigger_eq (b := { b with epoll := Function.update b.epoll b.ctx.fd (b.ctx.events.remove e).armed })
        h.sound (h.served e hreg)
      rw [htrigger] at hb₁
      obtain rfl := Except.ok.inj hb₁
      refine ⟨h.clear hreg rfl rfl rfl fun w => ?_, Bool.noConfusion⟩
      dsimp only
      rw [List.map_append, h.sound.waiter_entry (h.served e hreg), List.count_append]
      omega
  · rw [if_neg hreg] at hr
    cases hr
    exact ⟨h.kept, fun _ => rfl⟩

theorem Ready.cancelAll (h : Ready b) (hfd : fd = b.ctx.fd) (hr : b.cancelAll fd refused = .ok (ok, b')) :
    Kept b b' ∧ (ok = false → b' = b) := by
  subst hfd
  unfold Body.cancelAll at hr
  by_cases hnone : b.ctx.events = .none
  · rw [if_pos hnone] at hr
    cases hr
    exact ⟨h.kept, fun _ => rfl⟩
  · rw [if_neg hnone] at hr
    cases refused with
    | true =>
      cases hr
      exact ⟨h.kept, fun _ => rfl⟩
    | false =>
      have hctl := h.ctl_left (m := .none) hnone
      rw [if_pos rfl] at hctl
      simp only [ctl, Bool.false_eq_true, if_false, hctl] at hr
      obtain ⟨b₁, hb₁, heq⟩ := Descriptors.map_ok.mp hr
      obtain ⟨rfl, rfl⟩ := Prod.mk.inj heq
      have hdiff : b.ctx.events.diff b.ctx.events = .none := by simp [Events.diff, Events.none]
      rw [← hdiff] at hb₁
      exact ⟨h.triggerAll h.served hb₁, Bool.noConfusion⟩

theorem Ready.dispatch (h : Ready b) {mask : Mask}
    (hm : ∀ e, mask.realEvents.has e = true → b.ctx.events.has e = true)
    (hr : b.dispatch mask refused = .ok (ok, b')) : Kept b b' ∧ (ok = false → b' = b) := by
  unfold Body.dispatch at hr
  dsimp only at hr
  by_cases hnone : b.ctx.events.inter mask.realEvents = .none
  · rw [if_pos hnone] at hr
    cases hr
    exact ⟨h.kept, fun _ => rfl⟩
  · have hne : b.ctx.events ≠ .none := fun he => hnone (by rw [he]; rfl)
    rw [if_neg hnone] at hr
    cases refused with
    | true =>
      cases hr
      exact ⟨h.kept, fun _ => rfl⟩
    | false =>
      simp only [ctl, Bool.false_eq_true, if_false, h.ctl_left hne] at hr
      obtain ⟨b₁, hb₁, heq⟩ := Descriptors.map_ok.mp hr
      obtain ⟨rfl, rfl⟩ := Prod.mk.inj heq
      exact ⟨h.triggerAll (fun e he => h.served e (hm e he)) hb₁, Bool.noConfusion⟩

end Body

/-- The operation adds an event for a thread of a scheduler, or adds none. -/
def Operation.Scheduled : Operation → Prop
  | .addEvent _ _ caller _ _ => caller.isSome = true
  | _ => True

instance (op : Operation) : Decidable op.Scheduled := by
  induction op using Operation.casesOn <;> unfold Operation.Scheduled <;> infer_instance

theorem Body.Ready.run {b b' : Body} {refused ok : Bool} {op : Operation} (h : Ready b) (hfd : op.fd = b.ctx.fd)
    (hop : op.Scheduled) (hr : b.run refused op = .ok (ok, b')) : Kept b b' ∧ (ok = false → b' = b) := by
  cases op with
  | addEvent fd e caller fiber cb => exact h.addEvent hfd hop hr
  | delEvent fd e =>
    obtain ⟨rfl, rfl⟩ := Prod.mk.inj (Except.ok.inj hr)
    exact h.delEvent hfd
  | cancelEvent fd e => exact h.cancelEvent hfd hr
  | cancelAll fd => exact h.cancelAll hfd hr

/-! ### The table -/

namespace FdTable

variable {s s' : FdTable} {t o : Nat} {op : Operation} {ctx : FdContext} {b : Body}

/-- Contexts, `epoll`, the pending count and the waiters agree. -/
structure Accounted (s : FdTable) : Prop where
  sound : ∀ (i : Nat) (ctx : FdContext), s.objects[i]? = some ctx → ctx.Sound
  served : ∀ (i : Nat) (ctx : FdContext), s.objects[i]? = some ctx → ∀ e, ctx.events.has e = true → ctx.Serves e
  fd : ∀ (i : Nat) (ctx : FdContext), s.objects[i]? = some ctx → ctx.fd = i
  epoll : ∀ (i : Nat) (ctx : FdContext), s.objects[i]? = some ctx → s.epoll i = ctx.events.armed
  outside : ∀ i, s.objects.length ≤ i → s.epoll i = none
  pending : s.pendingEventCount = (s.objects.map (·.events.card)).sum
  waiters : ∀ w, s.added.count w =
    (s.objects.map (·.entries.count w)).sum + (s.scheduled.map asAdded).count w + s.discarded.count w

theorem Accounted.setThread (h : Accounted s) (pc : CallPc) : Accounted (s.setThread t pc) :=
  ⟨h.sound, h.served, h.fd, h.epoll, h.outside, h.pending, h.waiters⟩

theorem Accounted.ready (h : Accounted s) (ho : s.objects[o]? = some ctx) : (s.toBody ctx).Ready := by
  refine ⟨h.sound o ctx ho, h.served o ctx ho, ?_, ?_⟩
  · change s.epoll ctx.fd = _
    rw [h.fd o ctx ho, h.epoll o ctx ho]
    rfl
  · change ctx.events.card ≤ s.pendingEventCount
    have hsum := sum_map_set (·.events.card) (FdContext.new o) ho
    have hnone : (FdContext.new o).events.card = 0 := rfl
    rw [h.pending]
    omega

/-- A body has worked on a context. -/
theorem Accounted.setBody (h : Accounted s) (ho : s.objects[o]? = some ctx) (hb : (s.toBody ctx).Kept b) :
    Accounted (s.setBody o b) := by
  obtain ⟨hsound, hserved, hfd, hepoll, hpending, hwaiters⟩ := hb
  have hfd : b.ctx.fd = o := hfd.trans (h.fd o ctx ho)
  have hepoll : b.epoll = Function.update s.epoll o b.ctx.events.armed := by
    rw [hepoll]
    exact congrArg (fun i => Function.update s.epoll i b.ctx.events.armed) (h.fd o ctx ho)
  have hlt : o < s.objects.length := (List.getElem?_eq_some_iff.mp ho).1
  have hget : ∀ j c, (s.objects.set o b.ctx)[j]? = some c → j = o ∧ c = b.ctx ∨ j ≠ o ∧ s.objects[j]? = some c := by
    intro j c hj
    rw [List.getElem?_set] at hj
    split_ifs at hj with hij
    · exact Or.inl ⟨hij.symm, (Option.some.inj hj).symm⟩
    · exact Or.inr ⟨fun he => hij he.symm, hj⟩
  refine ⟨fun j c hj => ?_, fun j c hj => ?_, fun j c hj => ?_, fun j c hj => ?_, fun j hj => ?_, ?_, fun w => ?_⟩
  · rcases hget j c hj with ⟨-, rfl⟩ | ⟨-, hj⟩
    · exact hsound
    · exact h.sound j c hj
  · rcases hget j c hj with ⟨-, rfl⟩ | ⟨-, hj⟩
    · exact hserved
    · exact h.served j c hj
  · rcases hget j c hj with ⟨rfl, rfl⟩ | ⟨-, hj⟩
    · exact hfd
    · exact h.fd j c hj
  · change b.epoll j = _
    rcases hget j c hj with ⟨rfl, rfl⟩ | ⟨hne, hj⟩
    · rw [hepoll, Function.update_self]
    · rw [hepoll, Function.update_of_ne hne, h.epoll j c hj]
  · have hj : s.objects.length ≤ j := by simpa [FdTable.setBody] using hj
    change b.epoll j = _
    rw [hepoll, Function.update_of_ne (Nat.ne_of_gt (Nat.lt_of_lt_of_le hlt hj)), h.outside j hj]
  · have hsum := sum_map_set (·.events.card) b.ctx ho
    have hold := h.pending
    change b.pendingEventCount + ctx.events.card = s.pendingEventCount + b.ctx.events.card at hpending
    change b.pendingEventCount = ((s.objects.set o b.ctx).map (·.events.card)).sum
    omega
  · have hsum := sum_map_set (·.entries.count w) b.ctx ho
    have hold := h.waiters w
    have hnew := hwaiters w
    simp only [toBody] at hnew
    simp only [FdTable.setBody]
    omega

/-- The new contexts hold nothing. -/
theorem Accounted.contextResize (h : Accounted s) (htable : Table s) {size : Nat} :
    Accounted (s.contextResize size) := by
  have hlen : s.contexts.length = s.objects.length := by rw [htable.identity, List.length_range]
  have hobjects : (s.contextResize size).objects =
      s.objects ++ (List.range (size - s.objects.length)).map fun k => .new (s.objects.length + k) := by
    simp only [FdTable.contextResize, hlen]
  have hget : ∀ j c, (s.contextResize size).objects[j]? = some c →
      s.objects[j]? = some c ∨ c = .new j ∧ s.objects.length ≤ j := by
    intro j c hj
    rw [hobjects] at hj
    exact getElem?_grow hj
  refine ⟨fun j c hj => ?_, fun j c hj => ?_, fun j c hj => ?_, fun j c hj => ?_, fun j hj => ?_, ?_, fun w => ?_⟩
  · rcases hget j c hj with hj | ⟨rfl, -⟩
    · exact h.sound j c hj
    · exact FdContext.sound_new j
  · rcases hget j c hj with hj | ⟨rfl, -⟩
    · exact h.served j c hj
    · intro e he
      simp [FdContext.new] at he
  · rcases hget j c hj with hj | ⟨rfl, -⟩
    · exact h.fd j c hj
    · rfl
  · rcases hget j c hj with hj | ⟨rfl, hle⟩
    · exact h.epoll j c hj
    · exact h.outside j hle
  · rw [hobjects, List.length_append] at hj
    exact h.outside j (Nat.le_trans (Nat.le_add_right _ _) hj)
  · rw [hobjects, sum_map_grow (g := fun ctx : FdContext => ctx.events.card) (f := .new) fun _ => rfl]
    exact h.pending
  · rw [hobjects, sum_map_grow (g := fun ctx : FdContext => ctx.entries.count w) (f := .new) fun _ => rfl]
    exact h.waiters w

/-- The table grows; an event is added by a thread of a scheduler; a report is about events that are registered. -/
def Orderly (s : FdTable) : TableAct → Prop
  | .call _ op => op.Scheduled
  | .grow t => Grows s (.grow t)
  | .body _ _ => True
  | .dispatch _ o mask _ =>
    match s.objects[o]? with
    | some ctx => mask.realEvents.diff ctx.events = .none
    | none => True

instance (s : FdTable) (a : TableAct) : Decidable (Orderly s a) := by
  induction a using TableAct.casesOn <;> dsimp only [Orderly]
  case dispatch t ctx mask refused => induction s.objects[ctx]? using Option.casesOn <;> infer_instance
  all_goals infer_instance

theorem Orderly.grows {a : TableAct} (h : Orderly s a) : Grows s a := by
  cases a with
  | grow t => exact h
  | _ => trivial

/-- The table and the accounts, and every call under way is one of a thread that may make it. -/
structure Inv (s : FdTable) : Prop where
  table : Table s
  accounted : Accounted s
  scheduled : ∀ t op, (s.threads t = .resize op ∨ ∃ o, s.threads t = .body op o) → op.Scheduled

theorem inv_init : Inv init := by
  have hempty : Accounted ⟨[], [], fun _ => none, 0, [], [], [], fun _ => .out⟩ :=
    ⟨by simp, by simp, by simp, by simp, fun _ _ => rfl, rfl, fun _ => rfl⟩
  have hobjects : init.objects = (List.range 32).map fun k => .new k := by
    simp [init, FdTable.contextResize]
  have hnew : ∀ (i : Nat) (ctx : FdContext), init.objects[i]? = some ctx → ctx = .new i := fun i ctx hi => by
    rw [hobjects, List.getElem?_map, Option.map_eq_some_iff] at hi
    obtain ⟨k, hk, rfl⟩ := hi
    obtain ⟨-, rfl⟩ := List.getElem?_eq_some_iff.mp hk
    rw [List.getElem_range]
  refine ⟨table_init, ⟨fun i ctx hi => ?_, fun i ctx hi e he => ?_, fun i ctx hi => ?_, fun i ctx hi => ?_,
    fun _ _ => rfl, by decide, fun w => ?_⟩, fun t op ht => ?_⟩
  · exact hnew i ctx hi ▸ FdContext.sound_new i
  · rw [hnew i ctx hi] at he
    simp [FdContext.new] at he
  · rw [hnew i ctx hi]
    rfl
  · rw [hnew i ctx hi]
    rfl
  · rw [hobjects]
    simp [init, FdTable.contextResize, Function.comp_def, FdContext.new, FdContext.entries, EventContext.entry,
      EventContext.empty]
  · rcases ht with ht | ⟨o, ht⟩ <;> simp [init, FdTable.contextResize] at ht

/-- The calls under way of the other threads stay what they are. -/
theorem scheduled_thread (h : Inv s) {t : Nat} (hthreads : ∀ t' ≠ t, s'.threads t' = s.threads t')
    (hop : ∀ op, (s'.threads t = .resize op ∨ ∃ o, s'.threads t = .body op o) → op.Scheduled) :
    ∀ t op, (s'.threads t = .resize op ∨ ∃ o, s'.threads t = .body op o) → op.Scheduled := by
  intro t' op ht'
  by_cases hne : t' = t
  · exact hop op (hne ▸ ht')
  · rw [hthreads t' hne] at ht'
    exact h.scheduled t' op ht'

theorem access_setThread (op : Operation) : ∃ pc, s.access t op = s.setThread t pc ∧
    ((∃ o, pc = .body op o) ∨ pc = .fault .range) := by
  unfold access
  split
  · exact ⟨_, rfl, Or.inl ⟨_, rfl⟩⟩
  · exact ⟨_, rfl, Or.inr rfl⟩

theorem call_setThread (op : Operation) : ∃ pc, s.call t op = s.setThread t pc ∧
    ((∃ o, pc = .body op o) ∨ pc = .fault .range ∨ pc = .resize op ∨ pc = .returned false) := by
  unfold FdTable.call
  split
  · obtain ⟨pc, heq, hbody | hfault⟩ := access_setThread (s := s) (t := t) op
    · exact ⟨pc, heq, Or.inl hbody⟩
    · exact ⟨pc, heq, Or.inr (Or.inl hfault)⟩
  · split
    · exact ⟨_, rfl, by simp⟩
    · exact ⟨_, rfl, by simp⟩

/-- A body is finished: nothing is changed when it returns `-1` or `false`. -/
theorem Inv.finish (h : Inv s) (ho : s.objects[o]? = some ctx) {r : Except Fault (Bool × Body)}
    (hr : ∀ ok b, r = .ok (ok, b) → (s.toBody ctx).Kept b ∧ (ok = false → b = s.toBody ctx)) (hrange : r ≠ .error .range) :
    Inv (s.finish t o r) ∧ ((s.finish t o r).threads t = .returned false →
      s.finish t o r = s.setThread t (.returned false)) := by
  have htable := h.table.finish (t := t) (o := o) hrange
  rcases finish_eq (s := s) (t := t) (o := o) r with ⟨ok, b, hb, heq⟩ | ⟨f, -, heq⟩
  · obtain ⟨hkept, hsame⟩ := hr ok b hb
    rw [heq] at htable ⊢
    refine ⟨⟨htable, (h.accounted.setBody ho hkept).setThread _, scheduled_thread h (t := t)
      (fun t' hne => setThread_ne hne) fun op hop => ?_⟩, fun hret => ?_⟩
    · rw [setThread_self] at hop
      rcases hop with hop | ⟨o, hop⟩ <;> cases hop
    · rw [setThread_self] at hret
      obtain rfl := CallPc.returned.inj hret
      obtain rfl := hsame rfl
      have hset : s.objects.set o ctx = s.objects := by
        rw [← (List.getElem?_eq_some_iff.mp ho).2, List.set_getElem_self]
      simp only [FdTable.setBody, toBody, hset]
  · rw [heq] at htable ⊢
    refine ⟨⟨htable, h.accounted.setThread _, scheduled_thread h (fun t' hne => setThread_ne hne) fun op hop => ?_⟩,
      fun hret => ?_⟩
    · rw [setThread_self] at hop
      rcases hop with hop | ⟨o, hop⟩ <;> cases hop
    · rw [setThread_self] at hret
      cases hret

theorem Inv.step (h : Inv s) {a : TableAct} (hok : Orderly s a) (hs : s.step a = some s') :
    Inv s' ∧ (s'.threads a.thread = .returned false → s' = s.setThread a.thread (.returned false)) := by
  have htable := (h.table.step hok.grows hs).1
  cases a with
  | call t op =>
    obtain ⟨-, rfl⟩ := step_call hs
    obtain ⟨pc, heq, hpc⟩ := call_setThread (s := s) (t := t) op
    rw [heq] at htable ⊢
    refine ⟨⟨htable, h.accounted.setThread pc, scheduled_thread h (fun t' hne => setThread_ne hne) fun op' hop => ?_⟩,
      fun hret => ?_⟩
    · rw [setThread_self] at hop
      rcases hpc with ⟨o, rfl⟩ | rfl | rfl | rfl <;> rcases hop with hop | ⟨o', hop⟩ <;> cases hop <;> exact hok
    · rw [TableAct.thread, setThread_self] at hret
      rw [hret]
      rfl
  | grow t =>
    obtain ⟨op, hop, rfl⟩ := step_grow hs
    obtain ⟨pc, heq, hpc⟩ := access_setThread (s := s.contextResize (op.fd * 3 / 2)) (t := t) op
    have hscheduled : op.Scheduled := h.scheduled t op (Or.inl hop)
    rw [heq] at htable ⊢
    refine ⟨⟨htable, (h.accounted.contextResize h.table).setThread pc, scheduled_thread h
      (fun t' hne => setThread_ne hne) fun op' hop' => ?_⟩, fun hret => ?_⟩
    · rw [setThread_self] at hop'
      rcases hpc with ⟨o, rfl⟩ | rfl <;> rcases hop' with hop' | ⟨o', hop'⟩ <;> cases hop'
      exact hscheduled
    · rw [TableAct.thread, setThread_self] at hret
      rcases hpc with ⟨o, rfl⟩ | rfl <;> cases hret
  | body t refused =>
    obtain ⟨op, o, ctx, hop, ho, rfl⟩ := step_body hs
    refine h.finish ho (fun ok b hb => ?_) Body.run_range
    have hfd : op.fd = ctx.fd := by
      have hget := h.table.body t op o hop
      rw [h.table.identity] at hget
      obtain ⟨hlt, hval⟩ := List.getElem?_eq_some_iff.mp hget
      rw [List.getElem_range] at hval
      rw [h.accounted.fd o ctx ho, hval]
    exact (h.accounted.ready ho).run hfd (h.scheduled t op (Or.inr ⟨o, hop⟩)) hb
  | dispatch t o mask refused =>
    obtain ⟨-, ctx, ho, rfl⟩ := step_dispatch hs
    refine h.finish ho (fun ok b hb => ?_) Body.dispatch_range
    simp only [Orderly, ho] at hok
    refine (h.accounted.ready ho).dispatch (fun e he => ?_) hb
    have hdiff := congrArg (·.has e) hok
    rw [Events.has_diff, Events.has_none, he, Bool.true_and] at hdiff
    exact (Bool.not_eq_false' _).mp hdiff

/-! ### What is accounted for -/

/-- The contexts of the table, in order. -/
def inTable (s : FdTable) : List FdContext := s.contexts.filterMap (s.objects[·]?)

/-- The context a descriptor has in the table. -/
def contextOf (s : FdTable) (fd : Nat) : Option FdContext := s.contexts[fd]?.bind (s.objects[·]?)

/-- The registered events. -/
def registered (s : FdTable) : List (Nat × Event) :=
  s.inTable.flatMap fun ctx => ([.read, .write].filter ctx.events.has).map (ctx.fd, ·)

/-- The waiters of the registered events. -/
def waiting (s : FdTable) : List (Option SchedulerId × Work) := s.inTable.flatMap FdContext.entries

/-- The pending count, `epoll` and the contexts agree, and every waiter that was added still waits, or was scheduled
    or thrown away, once. -/
structure Accounts (s : FdTable) : Prop where
  pending : s.pendingEventCount = s.registered.length
  fd : ∀ fd ctx, s.contextOf fd = some ctx → ctx.fd = fd
  epoll : ∀ fd, s.epoll fd = (s.contextOf fd).bind (·.events.armed)
  registered : ∀ fd ctx e, s.contextOf fd = some ctx → ctx.events.has e = true →
    (ctx.getContext e).scheduler.isSome = true ∧ (ctx.getContext e).cb.isSome ≠ (ctx.getContext e).fiber.isSome
  unregistered : ∀ fd ctx e, s.contextOf fd = some ctx → ctx.events.has e = false → ctx.getContext e = .empty
  waiters : s.added.Perm (s.waiting ++ s.scheduled.map asAdded ++ s.discarded)

theorem Table.contextOf (h : Table s) (fd : Nat) : s.contextOf fd = s.objects[fd]? := by
  rw [FdTable.contextOf, h.identity]
  by_cases hlt : fd < s.objects.length
  · rw [List.getElem?_range hlt]
    rfl
  · rw [List.getElem?_eq_none (by simpa using hlt), List.getElem?_eq_none (Nat.not_lt.mp hlt)]
    rfl

theorem Table.inTable (h : Table s) : s.inTable = s.objects := by
  have hget : (List.range s.objects.length).map (s.objects[·]?) = s.objects.map some :=
    List.ext_getElem (by simp) fun i hi hi' => by
      have hlt : i < s.objects.length := by simpa using hi
      rw [List.getElem_map, List.getElem_map, List.getElem_range, List.getElem?_eq_getElem hlt]
  have hsome : (s.objects.map some).filterMap id = s.objects := by simp [List.filterMap_map]
  rw [← hget, List.filterMap_map] at hsome
  rw [FdTable.inTable, h.identity]
  exact hsome

theorem Inv.accounts (h : Inv s) : Accounts s := by
  obtain ⟨htable, hacc, -⟩ := h
  refine ⟨?_, fun fd ctx hctx => ?_, fun fd => ?_, fun fd ctx e hctx he => ?_, fun fd ctx e hctx he => ?_, ?_⟩
  · rw [hacc.pending, FdTable.registered, htable.inTable, List.length_flatMap]
    refine congrArg List.sum (List.map_congr_left fun ctx _ => ?_)
    rw [List.length_map]
    obtain ⟨-, -, -, ⟨r, w⟩⟩ := ctx
    cases r <;> cases w <;> rfl
  · exact hacc.fd fd ctx (htable.contextOf fd ▸ hctx)
  · rw [htable.contextOf]
    cases hctx : s.objects[fd]? with
    | none => exact hacc.outside fd (List.getElem?_eq_none_iff.mp hctx)
    | some ctx => exact hacc.epoll fd ctx hctx
  · rw [htable.contextOf] at hctx
    refine ⟨(hacc.served fd ctx hctx e he).2, ?_⟩
    rcases (hacc.sound fd ctx hctx).waits e he with ⟨c, hcb, hf⟩ | ⟨f, hcb, hf⟩ <;> simp [hcb, hf]
  · exact (hacc.sound fd ctx (htable.contextOf fd ▸ hctx)).empty e he
  · rw [List.perm_iff_count]
    intro w
    rw [hacc.waiters w, List.count_append, List.count_append, FdTable.waiting, htable.inTable, List.count_flatMap]
    rfl

/-- Along every run that is orderly, what is registered is accounted for, and a call that returns `-1` or `false`
    changes nothing. -/
theorem registration_accounted (h : Reach FdTable.step Orderly init s) :
    Accounts s ∧ ∀ a s', Orderly s a → s.step a = some s' → s'.threads a.thread = .returned false →
      s' = s.setThread a.thread (.returned false) := by
  have hinv : Inv s := h.invariant inv_init fun _ _ _ hi hok hs => (hi.step hok hs).1
  exact ⟨hinv.accounts, fun a s' hok hs => (hinv.step hok hs).2⟩

/-- A waiter is added, its event is refused by `epoll` once, then it is cancelled. -/
theorem registration_accounted_cancel : ∃ s : FdTable, s.scheduled = [(0, .fiber 7)] ∧ Accounts s := by
  let s := (exec FdTable.step Orderly init [.call 0 (.addEvent 40 .read (some 0) 7 none), .grow 0, .body 0 false,
    .call 1 (.cancelEvent 40 .read), .body 1 true, .call 1 (.cancelEvent 40 .read), .body 1 false]).get
    (by decide +kernel)
  exact ⟨s, by decide +kernel, (registration_accounted (reach_of_exec (Option.some_get _).symm)).1⟩

/-- An event is registered, then a thread that asks for less shrinks the table: the descriptor is armed without a
    context. -/
theorem armed_without_context : ¬∀ s, Reach FdTable.step (fun _ _ => True) init s → Accounts s := by
  intro h
  let s := (exec FdTable.step (fun _ _ => True) init [.call 0 (.addEvent 40 .read (some 0) 0 none),
    .call 1 (.addEvent 100 .read (some 0) 1 none), .grow 1, .body 1 false, .grow 0]).get (by decide +kernel)
  have hepoll := (h s (reach_of_exec (Option.some_get _).symm)).epoll 100
  exact absurd hepoll (by decide +kernel)

end FdTable
end IOManager
end MyHttp

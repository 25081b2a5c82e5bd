import MyHttp.IOManager.Events
import MyHttp.Lib.Count
import MyHttp.Lib.Run
import Mathlib.Tactic.SplitIfs

/-! What the dispatch of a report does. Contexts, `epoll` and the pending count agree in every reachable state. A report
    is dispatched as it should be when it names no registered event, or registered events only; one event more
    runs into the assertion of `triggerEvent`. -/

namespace MyHttp
namespace IOManager

open Lib.Run Lib.Count
open Scheduler (Work CallbackId)

/-! ### One context -/

namespace Events

variable {m k : Events} {e e' : Event}

def card (m : Events) : Nat := m.read.toNat + m.write.toNat

/-- What `epoll` is to hold for the registered events. -/
def armed (m : Events) : Option Events := if m = none then Option.none else some m

@[simp] theorem has_none : none.has e = false := by
  cases e <;> rfl

theorem ext_has (h : ∀ e, m.has e = k.has e) : m = k :=
  have hr : m.read = k.read := h .read
  have hw : m.write = k.write := h .write
  by cases m; cases k; simp_all

theorem has_add : (m.add e).has e' = (m.has e' || e = e') := by
  cases e <;> cases e' <;> simp [add, has]

theorem has_remove : (m.remove e).has e' = (m.has e' && e ≠ e') := by
  cases e <;> cases e' <;> simp [remove, has]

theorem has_inter : (m.inter k).has e = (m.has e && k.has e) := by
  cases e <;> rfl

theorem has_diff : (m.diff k).has e = (m.has e && !k.has e) := by
  cases e <;> rfl

theorem card_add (h : m.has e = false) : (m.add e).card = m.card + 1 := by
  cases e <;> simp only [has] at h <;> simp only [add, card, h, Bool.toNat_true, Bool.toNat_false]
  omega

theorem card_remove (h : m.has e = true) : (m.remove e).card + 1 = m.card := by
  cases e <;> simp only [has] at h <;> simp only [remove, card, h, Bool.toNat_true, Bool.toNat_false]
  omega

theorem add_ne_none : m.add e ≠ none := by
  cases e <;> simp [add, none]

theorem card_diff (h : ∀ e, k.has e = true → m.has e = true) : (m.diff k).card + k.card = m.card := by
  have hr : k.read = true → m.read = true := h .read
  have hw : k.write = true → m.write = true := h .write
  cases m with | mk mr mw => ?_
  cases k with | mk kr kw => ?_
  revert hr hw
  cases mr <;> cases mw <;> cases kr <;> cases kw <;> simp [card, diff]

theorem armed_of_ne (h : m ≠ none) : m.armed = some m := if_neg h

end Events

namespace EventContext

/-- A callback or a fiber waits. -/
def Waits (ec : EventContext) : Prop :=
  (∃ c, ec.cb = some c ∧ ec.fiber = none) ∨ ∃ f, ec.cb = none ∧ ec.fiber = some f

/-- Who waits, and where it is to be scheduled. -/
def waiter (ec : EventContext) : Option (SchedulerId × Work) :=
  match ec.scheduler, ec.cb, ec.fiber with
  | some sc, some c, _ => some (sc, .callback c)
  | some sc, none, some f => some (sc, .fiber f)
  | _, _, _ => none

end EventContext

namespace FdContext

variable {ctx : FdContext} {e e' : Event} {ec : EventContext} {m : Events}

/-- Registered events have a waiter, and the others nothing. -/
structure Sound (ctx : FdContext) : Prop where
  waits : ∀ e, ctx.events.has e = true → (ctx.getContext e).Waits
  empty : ∀ e, ctx.events.has e = false → ctx.getContext e = .empty

/-- The event is registered, by a thread of a scheduler. -/
def Serves (ctx : FdContext) (e : Event) : Prop :=
  ctx.events.has e = true ∧ (ctx.getContext e).scheduler.isSome = true

/-- The context without the event. -/
def clear (ctx : FdContext) (e : Event) : FdContext :=
  { ctx with events := ctx.events.remove e }.setContext e .empty

def clearAll (ctx : FdContext) (m : Events) : FdContext :=
  let ctx := if m.read then ctx.clear .read else ctx
  if m.write then ctx.clear .write else ctx

/-- The waiters of the events of a mask. -/
def waiters (ctx : FdContext) (m : Events) : List (SchedulerId × Work) :=
  (if m.read then ctx.read.waiter.toList else []) ++ if m.write then ctx.write.waiter.toList else []

@[simp] theorem setContext_events : (ctx.setContext e ec).events = ctx.events := by
  cases e <;> rfl

@[simp] theorem setContext_fd : (ctx.setContext e ec).fd = ctx.fd := by
  cases e <;> rfl

theorem getContext_setContext :
    (ctx.setContext e ec).getContext e' = if e = e' then ec else ctx.getContext e' := by
  cases e <;> cases e' <;> rfl

theorem sound_new (fd : Nat) : (new fd).Sound :=
  ⟨fun e h => by simp [new] at h, fun e _ => by cases e <;> rfl⟩

/-- Registering an event, with its waiter. -/
theorem Sound.add (h : ctx.Sound) (hec : ec.Waits) :
    ({ ctx with events := ctx.events.add e }.setContext e ec).Sound := by
  refine ⟨fun e' he' => ?_, fun e' he' => ?_⟩
  · rw [getContext_setContext]
    split_ifs with hee
    · exact hec
    · rw [setContext_events, Events.has_add] at he'
      exact h.waits e' (by simpa [hee] using he')
  · rw [setContext_events, Events.has_add, Bool.or_eq_false_iff] at he'
    rw [getContext_setContext, if_neg (by simpa using he'.2)]
    exact h.empty e' he'.1

theorem Sound.clear (h : ctx.Sound) (e : Event) : (ctx.clear e).Sound := by
  refine ⟨fun e' he' => ?_, fun e' he' => ?_⟩
  · rw [FdContext.clear, setContext_events, Events.has_remove, Bool.and_eq_true] at he'
    rw [FdContext.clear, getContext_setContext, if_neg (by simpa using he'.2)]
    exact h.waits e' he'.1
  · rw [FdContext.clear, getContext_setContext]
    split_ifs with hee
    · rfl
    · rw [FdContext.clear, setContext_events, Events.has_remove] at he'
      exact h.empty e' (by simpa [hee] using he')

/-- `triggerEvent` gets through exactly for an event that is served; it takes the event and its waiter out. -/
theorem Sound.triggerEvent_iff (h : ctx.Sound) {r : FdContext × List (SchedulerId × Work)} :
    ctx.triggerEvent e = .ok r ↔ ctx.Serves e ∧ r = (ctx.clear e, (ctx.getContext e).waiter.toList) := by
  unfold triggerEvent Serves
  split_ifs with he
  · rcases h.waits e he with ⟨c, hcb, hf⟩ | ⟨f, hcb, hf⟩ <;>
      cases hs : (ctx.getContext e).scheduler <;>
      simp [hcb, hf, hs, he, EventContext.waiter, FdContext.clear, EventContext.empty, eq_comm]
  · simp [he]

theorem serves_clear_ne (h : e ≠ e') : (ctx.clear e).Serves e' ↔ ctx.Serves e' := by
  rw [Serves, Serves, clear, setContext_events, Events.has_remove, getContext_setContext, if_neg h]
  simp [h, getContext]

theorem getContext_clear_ne (h : e ≠ e') : (ctx.clear e).getContext e' = ctx.getContext e' := by
  rw [clear, getContext_setContext, if_neg h]
  cases e' <;> rfl

theorem Sound.clearAll (h : ctx.Sound) (m : Events) : (ctx.clearAll m).Sound := by
  unfold FdContext.clearAll
  split_ifs
  · exact (h.clear .read).clear .write
  · exact h.clear .read
  · exact h.clear .write
  · exact h

@[simp] theorem clearAll_fd : (ctx.clearAll m).fd = ctx.fd := by
  unfold clearAll clear
  split_ifs <;> simp

@[simp] theorem clearAll_events : (ctx.clearAll m).events = ctx.events.diff m := by
  unfold clearAll clear
  split_ifs <;> simp_all [Events.remove, Events.diff]

theorem getContext_clearAll (h : m.has e = false) : (ctx.clearAll m).getContext e = ctx.getContext e := by
  obtain ⟨r, w⟩ := m
  cases e with
  | read =>
    obtain rfl : r = false := h
    cases w
    · rfl
    · exact getContext_clear_ne (show Event.write ≠ .read by decide)
  | write =>
    obtain rfl : w = false := h
    cases r
    · rfl
    · exact getContext_clear_ne (show Event.read ≠ .write by decide)

/-- An event that is served has one waiter. -/
theorem Sound.length_waiters (h : ctx.Sound) (hm : ∀ e, m.has e = true → ctx.Serves e) :
    (ctx.waiters m).length = m.card := by
  have hone : ∀ e, m.has e = true → (ctx.getContext e).waiter.toList.length = 1 := by
    intro e he
    obtain ⟨hreg, hs⟩ := hm e he
    obtain ⟨sc, hsc⟩ := Option.isSome_iff_exists.mp hs
    rcases h.waits e hreg with ⟨c, hcb, hf⟩ | ⟨f, hcb, hf⟩ <;> simp [EventContext.waiter, hsc, hcb, hf]
  have hr : m.read = true → ctx.read.waiter.toList.length = 1 := hone .read
  have hw : m.write = true → ctx.write.waiter.toList.length = 1 := hone .write
  unfold waiters Events.card
  rw [List.length_append]
  congr 1
  · cases hm : m.read
    · rfl
    · exact hr hm
  · cases hm : m.write
    · rfl
    · exact hw hm

end FdContext

/-! ### What is armed -/

section Armed

variable {epoll : Epoll} {fd : Nat} {events m : Events} {e : Event}

/-- `epoll_ctl` succeeds for a context with a registered event. -/
theorem epollCtl_left (h : epoll fd = events.armed) (hne : events ≠ .none) :
    epollCtl epoll (if m = .none then .del else .mod) fd m = some (Function.update epoll fd m.armed) := by
  have hthere : epoll fd = some events := by rw [h, Events.armed_of_ne hne]
  unfold epollCtl Events.armed
  split_ifs <;> rw [hthere]

theorem epollCtl_add (h : epoll fd = events.armed) :
    epollCtl epoll (if events = .none then .add else .mod) fd (events.add e) =
      some (Function.update epoll fd (events.add e).armed) := by
  rw [Events.armed_of_ne Events.add_ne_none]
  unfold Events.armed at h
  unfold epollCtl
  split_ifs at h ⊢ <;> rw [h]

end Armed

/-! ### The table -/

namespace Descriptors

variable {n : Nat} {s s' : Descriptors n} {i : Nat} {ctx ctx' : FdContext} {e : Event} {m : Events} {w : Fin n}

/-- Contexts, `epoll` and the pending count agree, and reports are about contexts there are. -/
structure Accounted (s : Descriptors n) : Prop where
  sound : ∀ (i : Nat) (ctx : FdContext), s.contexts[i]? = some ctx → ctx.Sound
  fd : ∀ (i : Nat) (ctx : FdContext), s.contexts[i]? = some ctx → ctx.fd = i
  epoll : ∀ (i : Nat) (ctx : FdContext), s.contexts[i]? = some ctx → s.epoll i = ctx.events.armed
  outside : ∀ i, s.contexts.length ≤ i → s.epoll i = none
  pending : s.pendingEventCount = (s.contexts.map (·.events.card)).sum
  reports : ∀ w i mask, .ready i mask ∈ s.reports w → i < s.contexts.length

/-- A context is replaced, and `epoll` and the pending count with it. -/
theorem Accounted.replace (h : Accounted s) (hi : s.contexts[i]? = some ctx) (hsound : ctx'.Sound)
    (hfd : ctx'.fd = ctx.fd) (hcontexts : s'.contexts = s.contexts.set i ctx')
    (hepoll : s'.epoll = Function.update s.epoll i ctx'.events.armed)
    (hpending : s'.pendingEventCount + ctx.events.card = s.pendingEventCount + ctx'.events.card)
    (hreports : s'.reports = s.reports) : Accounted s' := by
  have hlt : i < s.contexts.length := (List.getElem?_eq_some_iff.mp hi).1
  have hget : ∀ j c, s'.contexts[j]? = some c → j = i ∧ c = ctx' ∨ j ≠ i ∧ s.contexts[j]? = some c := by
    intro j c hj
    rw [hcontexts, List.getElem?_set] at hj
    split_ifs at hj with hij
    · exact Or.inl ⟨hij.symm, (Option.some.inj hj).symm⟩
    · exact Or.inr ⟨fun he => hij he.symm, hj⟩
  refine ⟨fun j c hj => ?_, fun j c hj => ?_, fun j c hj => ?_, fun j hj => ?_, ?_, ?_⟩
  · rcases hget j c hj with ⟨-, rfl⟩ | ⟨-, hj⟩
    · exact hsound
    · exact h.sound j c hj
  · rcases hget j c hj with ⟨rfl, rfl⟩ | ⟨-, hj⟩
    · rw [hfd, h.fd j ctx hi]
    · exact h.fd j c hj
  · rcases hget j c hj with ⟨rfl, rfl⟩ | ⟨hne, hj⟩
    · rw [hepoll, Function.update_self]
    · rw [hepoll, Function.update_of_ne hne, h.epoll j c hj]
  · rw [hcontexts, List.length_set] at hj
    rw [hepoll, Function.update_of_ne (Nat.ne_of_gt (Nat.lt_of_lt_of_le hlt hj)), h.outside j hj]
  · have hsum := sum_map_set (·.events.card) ctx' hi
    have := h.pending
    rw [hcontexts]
    omega
  · rw [hreports, hcontexts, List.length_set]
    exact h.reports

theorem contextResize_eq {contexts : List FdContext} {size : Nat} (h : contexts.length ≤ size) :
    contextResize contexts size =
      contexts ++ (List.range (size - contexts.length)).map fun k => .new (contexts.length + k) := by
  rw [contextResize, List.take_of_length_le h]

/-- The new places hold nothing. -/
theorem Accounted.resize (h : Accounted s) {size : Nat} (hsize : s.contexts.length ≤ size) :
    Accounted { s with contexts := contextResize s.contexts size } := by
  have hget : ∀ j c, (contextResize s.contexts size)[j]? = some c →
      s.contexts[j]? = some c ∨ c = .new j ∧ s.contexts.length ≤ j := by
    intro j c hj
    rw [contextResize_eq hsize] at hj
    exact getElem?_grow hj
  have hlen : s.contexts.length ≤ (contextResize s.contexts size).length := by
    rw [contextResize_eq hsize, List.length_append]
    exact Nat.le_add_right _ _
  refine ⟨fun j c hj => ?_, fun j c hj => ?_, fun j c hj => ?_, fun j hj => ?_, ?_, fun w j mask hj => ?_⟩
  · rcases hget j c hj with hj | ⟨rfl, -⟩
    · exact h.sound j c hj
    · exact FdContext.sound_new j
  · rcases hget j c hj with hj | ⟨rfl, -⟩
    · exact h.fd j c hj
    · rfl
  · rcases hget j c hj with hj | ⟨rfl, hle⟩
    · exact h.epoll j c hj
    · exact h.outside j hle
  · exact h.outside j (Nat.le_trans hlen hj)
  · rw [h.pending, contextResize_eq hsize]
    exact (sum_map_grow (g := fun ctx : FdContext => ctx.events.card) (f := .new) (fun _ => rfl) _ _).symm
  · exact Nat.lt_of_lt_of_le (h.reports w j mask hj) hlen

/-! ### Triggering -/

/-- `epoll` armed anew for a descriptor. -/
def rearm (s : Descriptors n) (i : Nat) (m : Events) : Descriptors n :=
  { s with epoll := Function.update s.epoll i m.armed }

/-- What triggering the events of a mask does. -/
def triggered (s : Descriptors n) (i : Nat) (ctx : FdContext) (m : Events) : Descriptors n :=
  { s.setContext i (ctx.clearAll m) with
    scheduled := s.scheduled ++ ctx.waiters m, pendingEventCount := s.pendingEventCount - m.card }

theorem trigger_iff (hi : s.contexts[i]? = some ctx) (h : ctx.Sound) :
    s.trigger i e = .ok s' ↔ ctx.Serves e ∧ s' = { s.setContext i (ctx.clear e) with
      scheduled := s.scheduled ++ (ctx.getContext e).waiter.toList,
      pendingEventCount := s.pendingEventCount - 1 } := by
  rw [trigger, hi]
  dsimp only
  cases ht : ctx.triggerEvent e with
  | ok r =>
    obtain ⟨hs, rfl⟩ := h.triggerEvent_iff.mp ht
    simp [Except.map, hs, eq_comm]
  | error fault =>
    have hno : ¬ctx.Serves e := fun hs => by
      have := h.triggerEvent_iff.mpr ⟨hs, rfl⟩
      rw [ht] at this
      cases this
    simp [Except.map, hno]

/-- The events of a mask can be triggered exactly when each of them is served. -/
theorem triggerAll_iff (hi : s.contexts[i]? = some ctx) (h : ctx.Sound) :
    s.triggerAll i m = .ok s' ↔ (∀ e, m.has e = true → ctx.Serves e) ∧ s' = s.triggered i ctx m := by
  have hall : (∀ e, m.has e = true → ctx.Serves e) ↔
      (m.read = true → ctx.Serves .read) ∧ (m.write = true → ctx.Serves .write) :=
    ⟨fun h => ⟨h .read, h .write⟩, fun h e => by cases e; exacts [h.1, h.2]⟩
  have hlt := (List.getElem?_eq_some_iff.mp hi).1
  have hset : s.contexts.set i ctx = s.contexts := by
    rw [← (List.getElem?_eq_some_iff.mp hi).2, List.set_getElem_self]
  have hi' : (s.contexts.set i (ctx.clear .read))[i]? = some (ctx.clear .read) := List.getElem?_set_self hlt
  have hwrite : ∀ t : Descriptors n, t.contexts = s.contexts.set i (ctx.clear .read) →
      (t.trigger i .write = .ok s' ↔ ctx.Serves .write ∧ s' = { t.setContext i (ctx.clearAll ⟨true, true⟩) with
        scheduled := t.scheduled ++ ctx.write.waiter.toList,
        pendingEventCount := t.pendingEventCount - 1 }) := by
    intro t ht
    rw [trigger_iff (ht ▸ hi') (h.clear .read), FdContext.serves_clear_ne Event.noConfusion,
      FdContext.getContext_clear_ne Event.noConfusion]
    rfl
  obtain ⟨r, w⟩ := m
  rw [hall]
  cases r <;> cases w <;> simp only [triggerAll, if_true, if_false, Bool.false_eq_true, Lib.Run.bind_eq_ok]
  · simp [triggered, setContext, FdContext.clearAll, FdContext.waiters, Events.card, hset]
    exact eq_comm
  · simp [trigger_iff hi h, triggered, FdContext.clearAll, FdContext.waiters, Events.card, FdContext.getContext]
  · simp [trigger_iff hi h, triggered, FdContext.clearAll, FdContext.waiters, Events.card, FdContext.getContext,
      eq_comm]
  · have heq : ∀ r : Descriptors n, r = { s.setContext i (ctx.clear .read) with
        scheduled := s.scheduled ++ ctx.read.waiter.toList, pendingEventCount := s.pendingEventCount - 1 } →
        { r.setContext i (ctx.clearAll ⟨true, true⟩) with
          scheduled := r.scheduled ++ ctx.write.waiter.toList, pendingEventCount := r.pendingEventCount - 1 } =
        s.triggered i ctx ⟨true, true⟩ := by
      rintro r rfl
      simp [triggered, setContext, FdContext.waiters, Events.card, Nat.sub_sub]
    constructor
    · rintro ⟨t, ht, htw⟩
      obtain ⟨hr, rfl⟩ := (trigger_iff hi h).mp ht
      obtain ⟨hw, rfl⟩ := (hwrite _ rfl).mp htw
      exact ⟨⟨fun _ => hr, fun _ => hw⟩, heq _ rfl⟩
    · rintro ⟨⟨hr, hw⟩, rfl⟩
      exact ⟨_, (trigger_iff hi h).mpr ⟨hr trivial, rfl⟩, (hwrite _ rfl).mpr ⟨hw trivial, (heq _ rfl).symm⟩⟩

/-! ### The operations -/

theorem Accounted.card_le (h : Accounted s) (hi : s.contexts[i]? = some ctx) :
    ctx.events.card ≤ s.pendingEventCount := by
  have hsum := sum_map_set (·.events.card) (FdContext.new i) hi
  have hnone : (FdContext.new i).events.card = 0 := rfl
  rw [h.pending]
  omega

theorem Accounted.ctl_left (h : Accounted s) (hi : s.contexts[i]? = some ctx) (hne : ctx.events ≠ .none) :
    epollCtl s.epoll (if m = .none then .del else .mod) i m = some (Function.update s.epoll i m.armed) :=
  epollCtl_left (h.epoll i ctx hi) hne

theorem Accounted.ctl_add (h : Accounted s) (hi : s.contexts[i]? = some ctx) :
    epollCtl s.epoll (if ctx.events = .none then .add else .mod) i (ctx.events.add e) =
      some (Function.update s.epoll i (ctx.events.add e).armed) := epollCtl_add (h.epoll i ctx hi)

/-- Taking events out of a context, the rest armed again. -/
theorem Accounted.triggered (h : Accounted s) (hi : s.contexts[i]? = some ctx)
    (hm : ∀ e, m.has e = true → ctx.Serves e) :
    Accounted ((s.rearm i (ctx.events.diff m)).triggered i ctx m) := by
  have hcard := Events.card_diff fun e he => (hm e he).1
  have hle := h.card_le hi
  refine h.replace hi ((h.sound i ctx hi).clearAll m) FdContext.clearAll_fd rfl ?_ ?_ rfl
  · rw [FdContext.clearAll_events]
    rfl
  · rw [FdContext.clearAll_events]
    change s.pendingEventCount - m.card + _ = _
    omega

/-- What a round of the dispatch loop does with a report. -/
theorem Accounted.dispatch_iff (h : Accounted s) (hi : s.contexts[i]? = some ctx) {mask : Mask} :
    s.dispatch (.ready i mask) = .ok s' ↔
      ctx.events.inter mask.realEvents = .none ∧ s' = s ∨
      ctx.events.inter mask.realEvents ≠ .none ∧ (∀ e, mask.realEvents.has e = true → ctx.Serves e) ∧
        s' = (s.rearm i (ctx.events.diff mask.realEvents)).triggered i ctx mask.realEvents := by
  rw [dispatch, hi]
  dsimp only
  by_cases hnone : ctx.events.inter mask.realEvents = .none
  · rw [if_pos hnone]
    simp only [hnone, true_and, ne_eq, not_true_eq_false, false_and, or_false, Except.ok.injEq]
    exact eq_comm
  · have hne : ctx.events ≠ .none := fun he => hnone (by rw [he]; rfl)
    rw [if_neg hnone, h.fd i ctx hi, h.ctl_left hi hne]
    simp only [hnone, false_and, false_or, ne_eq, not_false_eq_true, true_and]
    exact triggerAll_iff (s := s.rearm i _) hi (h.sound i ctx hi)

theorem Accounted.dispatch (h : Accounted s) {r : Report} (hd : s.dispatch r = .ok s') : Accounted s' := by
  cases r with
  | tickle =>
    cases hd
    exact h
  | ready i mask =>
    cases hi : s.contexts[i]? with
    | none => simp [Descriptors.dispatch, hi] at hd
    | some ctx =>
      rcases (h.dispatch_iff hi).mp hd with ⟨-, rfl⟩ | ⟨-, hserves, rfl⟩
      · exact h
      · exact h.triggered hi hserves

theorem Accounted.grow (h : Accounted s) (fd : Nat) : Accounted (s.grow fd) := by
  unfold Descriptors.grow
  split_ifs with hlt
  · exact h
  · exact h.resize (by omega)

theorem Accounted.addEvent (h : Accounted s) {fd : Nat} {caller : Option SchedulerId} {fiber : FiberId}
    {cb : Option CallbackId} {refused ok : Bool} (ha : s.addEvent fd e caller fiber cb refused = .ok (ok, s')) :
    Accounted s' := by
  have hg := h.grow fd
  unfold Descriptors.addEvent at ha
  generalize s.grow fd = t at ha hg
  cases hi : t.contexts[fd]? with
  | none => simp [hi] at ha
  | some ctx =>
    simp only [hi] at ha
    by_cases hreg : ctx.events.has e = true
    · rw [if_pos hreg] at ha
      cases ha
    rw [if_neg hreg, hg.ctl_add hi] at ha
    cases refused with
    | true =>
      cases ha
      exact hg
    | false =>
      simp only [Bool.false_eq_true, if_false] at ha
      split_ifs at ha
      cases ha
      refine hg.replace hi ((hg.sound fd ctx hi).add ?_) (by simp) rfl (by simp) ?_ rfl
      · cases cb with
        | some c => exact Or.inl ⟨c, rfl, rfl⟩
        | none => exact Or.inr ⟨fiber, rfl, rfl⟩
      · simp only [FdContext.setContext_events, Events.card_add (Bool.eq_false_iff.mpr hreg)]
        exact Nat.add_right_comm _ _ _

/-- One event is taken out of a context, with or without a call for its waiter. -/
theorem Accounted.clear (h : Accounted s) (hi : s.contexts[i]? = some ctx) (hreg : ctx.events.has e = true)
    (hcontexts : s'.contexts = s.contexts.set i (ctx.clear e))
    (hepoll : s'.epoll = Function.update s.epoll i (ctx.events.remove e).armed)
    (hpending : s'.pendingEventCount = s.pendingEventCount - 1) (hreports : s'.reports = s.reports) :
    Accounted s' := by
  have hcard := Events.card_remove hreg
  have hle := h.card_le hi
  have hevents : (ctx.clear e).events = ctx.events.remove e := by rw [FdContext.clear, FdContext.setContext_events]
  refine h.replace hi ((h.sound i ctx hi).clear e) (by simp [FdContext.clear]) hcontexts ?_ ?_ hreports
  · rw [hevents, hepoll]
  · rw [hevents]
    omega

theorem Accounted.delEvent (h : Accounted s) {fd : Nat} : Accounted (s.delEvent fd e).2 := by
  unfold Descriptors.delEvent
  cases hi : s.contexts[fd]? with
  | none => exact h
  | some ctx =>
    dsimp only
    by_cases hreg : ctx.events.has e = true
    · have hne : ctx.events ≠ .none := fun he => by simp [he] at hreg
      rw [if_pos hreg, h.ctl_left hi hne]
      exact h.clear hi hreg rfl rfl rfl rfl
    · rw [if_neg hreg]
      exact h

theorem map_ok {ε α β : Type} {x : Except ε α} {f : α → β} {b : β} :
    x.map f = .ok b ↔ ∃ a, x = .ok a ∧ f a = b := by
  cases x <;> simp [Except.map]

theorem Accounted.cancelEvent (h : Accounted s) {fd : Nat} {r : Bool × Descriptors n}
    (hc : s.cancelEvent fd e = .ok r) : Accounted r.2 := by
  unfold Descriptors.cancelEvent at hc
  cases hi : s.contexts[fd]? with
  | none =>
    simp only [hi] at hc
    cases hc
    exact h
  | some ctx =>
    simp only [hi] at hc
    by_cases hreg : ctx.events.has e = true
    · have hne : ctx.events ≠ .none := fun he => by simp [he] at hreg
      rw [if_pos hreg, h.ctl_left hi hne] at hc
      obtain ⟨t, ht, rfl⟩ := map_ok.mp hc
      obtain ⟨-, rfl⟩ := (trigger_iff (s := s.rearm fd _) hi (h.sound fd ctx hi)).mp ht
      exact h.clear hi hreg rfl rfl rfl rfl
    · rw [if_neg hreg] at hc
      cases hc
      exact h

theorem Accounted.cancelAll (h : Accounted s) {fd : Nat} {r : Bool × Descriptors n}
    (hc : s.cancelAll fd = .ok r) : Accounted r.2 := by
  unfold Descriptors.cancelAll at hc
  cases hi : s.contexts[fd]? with
  | none =>
    simp only [hi] at hc
    cases hc
    exact h
  | some ctx =>
    simp only [hi] at hc
    by_cases hnone : ctx.events = .none
    · rw [if_pos hnone] at hc
      cases hc
      exact h
    · have hctl := h.ctl_left (m := .none) hi hnone
      rw [if_pos rfl] at hctl
      rw [if_neg hnone, hctl] at hc
      obtain ⟨t, ht, rfl⟩ := map_ok.mp hc
      obtain ⟨hserves, rfl⟩ := (triggerAll_iff (s := s.rearm fd .none) hi (h.sound fd ctx hi)).mp ht
      have hdiff : ctx.events.diff ctx.events = .none := by simp [Events.diff, Events.none]
      rw [← hdiff]
      exact h.triggered hi hserves

theorem accounted_init (n : Nat) : Accounted (init n) := by
  have hempty : Accounted { init n with contexts := [] } :=
    ⟨by simp, by simp, by simp, fun _ _ => rfl, rfl, by simp [init]⟩
  exact hempty.resize (Nat.zero_le 32)

theorem Accounted.setReports (h : Accounted s) {reports : List Report}
    (hr : ∀ i mask, .ready i mask ∈ reports → i < s.contexts.length) :
    Accounted { s with reports := Function.update s.reports w reports } := by
  refine ⟨h.sound, h.fd, h.epoll, h.outside, h.pending, fun v i mask hmem => ?_⟩
  dsimp only at hmem
  rcases eq_or_ne v w with rfl | hne
  · rw [Function.update_self] at hmem
    exact hr i mask hmem
  · rw [Function.update_of_ne hne] at hmem
    exact h.reports v i mask hmem

/-- Only what is armed is reported. -/
theorem Accounted.lt_of_possible (h : Accounted s) {mask : Mask} (hp : (Report.ready i mask).possible s.epoll = true) :
    i < s.contexts.length := by
  by_contra hlt
  simp [Report.possible, h.outside i (Nat.not_lt.mp hlt)] at hp

theorem toOption_eq_some {ε α : Type} {x : Except ε α} {a : α} : x.toOption = some a ↔ x = .ok a := by
  cases x <;> simp [Except.toOption]

theorem Accounted.step (h : Accounted s) {a : IoAct n} (hs : s.step a = some s') : Accounted s' := by
  cases a with
  | call c =>
    simp only [Descriptors.step] at hs
    obtain ⟨r, hr, rfl⟩ := Option.map_eq_some_iff.mp hs
    have hr : s.call c = .ok r := toOption_eq_some.mp hr
    cases c with
    | addEvent fd e caller fiber cb refused => exact h.addEvent hr
    | delEvent fd e =>
      cases hr
      exact h.delEvent
    | cancelEvent fd e => exact h.cancelEvent hr
    | cancelAll fd => exact h.cancelAll hr
  | wait w reports =>
    simp only [Descriptors.step] at hs
    split_ifs at hs with hok
    cases hs
    exact h.setReports fun i mask hmem => h.lt_of_possible (List.all_eq_true.mp hok.2.2 _ hmem)
  | dispatch w =>
    simp only [Descriptors.step] at hs
    split at hs
    case h_1 => cases hs
    case h_2 r rest hr =>
      have hrest : Accounted { s with reports := Function.update s.reports w rest } :=
        h.setReports fun i mask hmem => h.reports w i mask (hr ▸ List.mem_cons_of_mem r hmem)
      exact hrest.dispatch (toOption_eq_some.mp hs)

/-! ### Reports -/

end Descriptors

/-- The events a report is about: an error or a hang-up is about both. -/
def Mask.reported (m : Mask) : Events :=
  ⟨m.epollin || (m.epollerr || m.epollhup), m.epollout || (m.epollerr || m.epollhup)⟩

theorem Mask.realEvents_eq (m : Mask) : m.realEvents = m.reported := by
  unfold realEvents reported
  cases h : m.epollerr || m.epollhup <;> simp

namespace Descriptors

variable {n : Nat} {s s' : Descriptors n} {i : Nat} {ctx ctx' : FdContext} {e : Event} {m : Events} {w : Fin n}

/-- The waiters of the events are scheduled and counted down, the other event of the descriptor stays armed with its
    waiter, and the other descriptors are as they were. -/
structure Served (s : Descriptors n) (i : Nat) (ctx : FdContext) (fired : Events) (s' : Descriptors n) : Prop where
  scheduled : s'.scheduled = s.scheduled ++ ctx.waiters fired
  waiters : (ctx.waiters fired).length = fired.card
  pending : s'.pendingEventCount + fired.card = s.pendingEventCount
  left : ∃ ctx', s'.contexts[i]? = some ctx' ∧ ctx'.events = ctx.events.diff fired ∧
    ∀ e, (ctx.events.diff fired).has e = true → ctx'.getContext e = ctx.getContext e
  armed : s'.epoll i = (ctx.events.diff fired).armed
  others : ∀ j ≠ i, s'.contexts[j]? = s.contexts[j]? ∧ s'.epoll j = s.epoll j

/-- The next report of the worker is dispatched without a fault, and as it should be. -/
def DispatchesRight (s : Descriptors n) (w : Fin n) (i : Nat) (ctx : FdContext) (mask : Mask) : Prop :=
  ∃ s', s.step (.dispatch w) = some s' ∧ Served s i ctx (ctx.events.inter mask.reported) s'

/-- The report names no registered event, or only events that are served. -/
def Fits (ctx : FdContext) (mask : Mask) : Prop :=
  ctx.events.inter mask.reported = .none ∨ ∀ e, mask.reported.has e = true → ctx.Serves e

theorem inter_of_serves (h : ∀ e, m.has e = true → ctx.Serves e) : ctx.events.inter m = m := by
  refine Events.ext_has fun e => ?_
  rw [Events.has_inter]
  cases hm : m.has e
  · exact Bool.and_false _
  · rw [(h e hm).1, Bool.true_and]

theorem Accounted.served_none (h : Accounted s) (hi : s.contexts[i]? = some ctx) : Served s i ctx .none s := by
  have hdiff : ctx.events.diff .none = ctx.events := by simp [Events.diff, Events.none]
  refine ⟨by simp [FdContext.waiters, Events.none], rfl, rfl, ⟨ctx, hi, hdiff.symm, fun _ _ => rfl⟩, ?_,
    fun _ _ => ⟨rfl, rfl⟩⟩
  rw [h.epoll i ctx hi, hdiff]

theorem Accounted.served_triggered (h : Accounted s) (hi : s.contexts[i]? = some ctx)
    (hm : ∀ e, m.has e = true → ctx.Serves e) :
    Served s i ctx m ((s.rearm i (ctx.events.diff m)).triggered i ctx m) := by
  have hlt := (List.getElem?_eq_some_iff.mp hi).1
  have hcard := Events.card_diff fun e he => (hm e he).1
  have hle := h.card_le hi
  refine ⟨rfl, (h.sound i ctx hi).length_waiters hm, Nat.sub_add_cancel (Nat.le_trans (Nat.le.intro (Nat.add_comm _ _ ▸ hcard)) hle),
    ⟨ctx.clearAll m, List.getElem?_set_self hlt, FdContext.clearAll_events, fun e he => ?_⟩,
    Function.update_self .., fun j hj => ⟨List.getElem?_set_ne hj.symm, Function.update_of_ne hj ..⟩⟩
  rw [Events.has_diff, Bool.and_eq_true] at he
  exact FdContext.getContext_clearAll (by simpa using he.2)

theorem Accounted.dispatchesRight_iff (h : Accounted s) {mask : Mask} {rest : List Report}
    (hr : s.reports w = .ready i mask :: rest) (hi : s.contexts[i]? = some ctx) :
    s.DispatchesRight w i ctx mask ↔ Fits ctx mask := by
  have hrest : Accounted { s with reports := Function.update s.reports w rest } :=
    h.setReports fun j mask hmem => h.reports w j mask (hr ▸ List.mem_cons_of_mem _ hmem)
  have hstep : ∀ s', s.step (.dispatch w) = some s' ↔
      Descriptors.dispatch { s with reports := Function.update s.reports w rest } (.ready i mask) = .ok s' := by
    intro s'
    rw [Descriptors.step, hr]
    exact toOption_eq_some
  simp only [DispatchesRight, hstep, hrest.dispatch_iff hi, Mask.realEvents_eq]
  constructor
  · rintro ⟨s', ⟨hnone, -⟩ | ⟨-, hserves, -⟩, -⟩
    · exact Or.inl hnone
    · exact Or.inr hserves
  · intro hfits
    by_cases hnone : ctx.events.inter mask.reported = .none
    · refine ⟨_, Or.inl ⟨hnone, rfl⟩, ?_⟩
      rw [hnone]
      obtain ⟨h₁, h₂, h₃, h₄, h₅, h₆⟩ := hrest.served_none hi
      exact ⟨h₁, h₂, h₃, h₄, h₅, h₆⟩
    · have hserves := hfits.resolve_left hnone
      refine ⟨_, Or.inr ⟨hnone, hserves, rfl⟩, ?_⟩
      rw [inter_of_serves hserves]
      obtain ⟨h₁, h₂, h₃, h₄, h₅, h₆⟩ := hrest.served_triggered hi hserves
      exact ⟨h₁, h₂, h₃, h₄, h₅, h₆⟩

/-- In every run, a report is dispatched as it should be exactly when it names no registered event of its descriptor,
    or only registered events that were added by a thread of a scheduler. -/
theorem dispatches_right_iff (h : Reach step (fun _ _ => True) (init n) s) {mask : Mask} {rest : List Report}
    (hr : s.reports w = .ready i mask :: rest) :
    ∃ ctx, s.contexts[i]? = some ctx ∧ (s.DispatchesRight w i ctx mask ↔ Fits ctx mask) := by
  have hinv : Accounted s := h.invariant (accounted_init n) fun _ _ _ hi _ hs => hi.step hs
  have hlt := hinv.reports w i mask (hr ▸ List.mem_cons_self)
  have hi := List.getElem?_eq_getElem hlt
  exact ⟨_, hi, hinv.dispatchesRight_iff hr hi⟩

/-- A hang-up while both events are registered. -/
theorem dispatches_right_iff_both : ∃ s : Descriptors 1, s.pendingEventCount = 2 ∧
    s.reports 0 = [.ready 5 ⟨false, false, false, true⟩] ∧
    ∃ ctx, s.contexts[5]? = some ctx ∧ (s.DispatchesRight 0 5 ctx ⟨false, false, false, true⟩ ↔
      Fits ctx ⟨false, false, false, true⟩) := by
  let s := (exec step (fun _ _ => True) (init 1) [.call (.addEvent 5 .read (some 0) 0 (some 0) false),
    .call (.addEvent 5 .write (some 0) 1 none false), .wait 0 [.ready 5 ⟨false, false, false, true⟩]]).get
    (by decide)
  have hr : s.reports 0 = [.ready 5 ⟨false, false, false, true⟩] := by decide
  exact ⟨s, by decide, hr, dispatches_right_iff (reach_of_exec (Option.some_get _).symm) hr⟩

/-- Only `READ` is registered, and the peer hangs up: the dispatch of the report triggers `WRITE` too. -/
theorem dispatch_asserts : ¬∀ n, ∀ s : Descriptors n, Reach step (fun _ _ => True) (init n) s →
    ∀ w i mask rest, s.reports w = .ready i mask :: rest →
      ∃ ctx, s.contexts[i]? = some ctx ∧ s.DispatchesRight w i ctx mask := by
  intro h
  let s := (exec step (fun _ _ => True) (init 1) [.call (.addEvent 5 .read (some 0) 0 (some 0) false),
    .wait 0 [.ready 5 ⟨false, false, false, true⟩]]).get (by decide)
  have hr : Reach step (fun _ _ => True) (init 1) s := reach_of_exec (Option.some_get _).symm
  obtain ⟨ctx, -, s', hs, -⟩ := h 1 s hr 0 5 ⟨false, false, false, true⟩ [] (by decide)
  have hfault : (s.step (.dispatch 0)).isNone = true := by decide
  rw [hs] at hfault
  cases hfault

end Descriptors
end IOManager
end MyHttp
